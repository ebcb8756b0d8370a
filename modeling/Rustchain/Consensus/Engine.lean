import Rustchain.Consensus.Finality
import Rustchain.Consensus.Proposers
import Rustchain.Consensus.Slashing
import Rustchain.Consensus.TxPool

/-! # The consensus engine

`ConsensusEngine`: the chain state with the pool, the finality engine and the table of the blocks
seen, and the four calls that change it. A block is produced or received, a transaction or a vote
comes in. A call is taken as one step: the locks of the source are held for the parts that change
the state. The timer loop of `start` is a sequence of calls of `try_produce_block`. -/

namespace Rustchain.Consensus

open Rustchain.Core Storage Vm Lib.Machine Lib.Maps ProposerSelection

inductive ConsensusEvent where
  | newBlock (block : Block)
  | blockFinalized (number : ℕ)
  | epochChanged (epoch : EpochInfo)
  | transactionPooled (hash : Blake3Hash)
  deriving DecidableEq

structure ConsensusConfig where
  chainId : ℕ
  maxTransactionsPerBlock : ℕ
  mempoolSize : ℕ
  minGasPrice : ℕ
  consensusParams : ConsensusParams
  gasLimitPerBlock : ℕ
  deriving DecidableEq, Repr

/-- The engine over a storage backend; `moduleCache` is that of its VM. -/
structure ConsensusEngine (P : Primitives) (W : Wasmtime) (σ : Type) where
  config : ConsensusConfig
  chainState : ChainState σ
  txPool : TransactionPool P
  finality : FinalityEngine
  moduleCache : HashMap Blake3Hash W.Module
  seenBlocks : HashMap (ℕ × Address) Blake3Hash

/-- What a call is given besides its arguments: the orders in which hash maps are visited and the
readings of the clock. -/
structure Surroundings where
  ord : ℕ → HashOrders
  pool : IterOrder (Sigma fun _ : Blake3Hash => PooledTransaction)
  timestamp : ℕ
  epochTime : ℕ
  slashTime : ℕ
  voteTime : ℕ

/-- What a call leaves: its result, the engine, the events that it sent and whether an arithmetic
operation overflowed. -/
structure EngineResult (P : Primitives) (W : Wasmtime) (σ : Type) where
  result : Except ConsensusError Unit
  engine : ConsensusEngine P W σ
  events : List ConsensusEvent
  overflow : Bool

namespace ConsensusEngine

section
variable {P : Primitives} {W : Wasmtime} {σ : Type} [Backend σ]

/-- **`ConsensusEngine::new`**, with the engine's VM cache as it is; `none` is a panic of
`from_genesis`. -/
def new (P : Primitives) (W : Wasmtime) (config : ConsensusConfig) (genesis : GenesisConfig)
    (storage : σ) (moduleCache : HashMap Blake3Hash W.Module) :
    Except ConsensusError (Option (ConsensusEngine P W σ)) × σ :=
  let r := fromGenesis P genesis storage
  (r.1.map fun s => s.map fun chainState =>
    { config, chainState
      txPool := .new P config.mempoolSize config.minGasPrice
      finality := .new chainState.currentEpoch.validatorSet
      moduleCache
      seenBlocks := ∅ }, r.2)

/-- The engine with what `apply_block` left. -/
def applied (e : ConsensusEngine P W σ) (a : Applied W.Module σ) : ConsensusEngine P W σ :=
  { e with chainState := a.state, moduleCache := a.cache }

/-- The part that production and reception share once a block is applied: the pool is pruned, the
epoch may advance, and the finality engine gets the set of a new epoch. -/
def finishBlock (e : ConsensusEngine P W σ) (now : ℕ) (hashes : List Blake3Hash) :
    EngineResult P W σ :=
  let r := maybeAdvanceEpoch e.config.consensusParams now e.chainState
  let e := { e with txPool := e.txPool.pruneCommitted hashes, chainState := r.val.2 }
  match r.val.1 with
  | .error err => ⟨.error err, e, [], r.ovf⟩
  | .ok none => ⟨.ok (), e, [], r.ovf⟩
  | .ok (some newEpoch) =>
    ⟨.ok (), { e with finality := e.finality.updateValidatorSet newEpoch.validatorSet },
      [.epochChanged newEpoch], r.ovf⟩

/-- `create_vote` and `add_vote` for a block that was produced; the result of the vote is dropped.
-/
def voteFor (e : ConsensusEngine P W σ) (number : ℕ) (hash : Blake3Hash) (keypair : KeyPair)
    (now : ℕ) : ConsensusEngine P W σ :=
  { e with finality := (e.finality.addVote P (.new P number hash keypair now)).2 }

/-! ### Production -/

/-- The block that is built for the transactions; its `gas_used` is zero and it is not signed. -/
def buildBlock (e : ConsensusEngine P W σ) (keypair : KeyPair) (timestamp number : ℕ)
    (transactions : List SignedTransaction) : Block where
  header :=
    { version := protocolVersion, chainId := e.config.chainId, number, timestamp
      parentHash := e.chainState.head.hash P, stateRoot := Blake3Hash.zero
      transactionsRoot := computeMerkleRoot P (transactions.map fun tx => tx.hash.asBytes)
      receiptsRoot := Blake3Hash.zero, validator := keypair.address P
      validatorPubkey := keypair.publicKey P, validatorSignature := Signature.default
      epoch := e.chainState.currentEpoch.epochNumber, gasUsed := 0
      gasLimit := e.config.gasLimitPerBlock, extraData := [] }
  transactions

/-- The block that is sent: `gas_used` is filled in after the block was applied, then it is signed.
-/
def sealBlock (P : Primitives) (block : Block) (gasUsed : ℕ) (keypair : KeyPair) : Block :=
  { block with header := { block.header with gasUsed }.sign P keypair }

/-- The rest of production once it is our turn. -/
def produceBlock (cfg : VmConfig) (su : Surroundings) (keypair : KeyPair)
    (e : ConsensusEngine P W σ) (number : ℕ) : Option (EngineResult P W σ) :=
  let transactions := e.txPool.selectTransactions su.pool e.config.gasLimitPerBlock
    e.config.maxTransactionsPerBlock
  let block := e.buildBlock keypair su.timestamp number transactions.val
  (applyBlock P W cfg su.ord e.moduleCache e.chainState block).map fun a =>
    match a.result with
    | .error err => ⟨.error err, e.applied a, [], transactions.ovf || a.overflow⟩
    | .ok receipts =>
      let gasUsed := sumU 64 (receipts.map (·.gasUsed))
      let block := sealBlock P block gasUsed.val keypair
      let r := (e.applied a).finishBlock su.epochTime (transactions.val.map (·.hash))
      let overflow := transactions.ovf || a.overflow || gasUsed.ovf || r.overflow
      match r.result with
      | .error err => { r with result := .error err, overflow }
      | .ok _ =>
        { r with
          engine := r.engine.voteFor number (block.hash P) keypair su.voteTime
          events := r.events ++ [.newBlock block]
          overflow }

/-- **`try_produce_block`.** -/
def tryProduceBlock (cfg : VmConfig) (su : Surroundings) (keypair : KeyPair)
    (e : ConsensusEngine P W σ) : Option (EngineResult P W σ) :=
  let nextNumber := addU 64 e.chainState.head.header.number 1
  let proposer := selectProposer P e.chainState.currentEpoch.validatorSet.activeValidators
    (e.chainState.head.hash P) nextNumber.val
  let overflow := nextNumber.ovf || proposer.ovf
  match proposer.val with
  | .error err => some ⟨.error err, e, [], overflow⟩
  | .ok a =>
    if a ≠ keypair.address P then some ⟨.ok (), e, [], overflow⟩
    else (e.produceBlock cfg su keypair nextNumber.val).map fun r =>
      { r with overflow := overflow || r.overflow }

/-! ### Reception -/

/-- The checks of a received block: its structure, its proposer for the current head, its signature.
-/
def checkReceived (e : ConsensusEngine P W σ) (block : Block) :
    Flagged (Except ConsensusError Unit) :=
  match block.validateBasic P with
  | .error err => pure (.error (.core err))
  | .ok _ => do
    let proposer ← verifyProposer P block.header.validator
      e.chainState.currentEpoch.validatorSet.activeValidators (e.chainState.head.hash P)
      block.header.number
    return proposer.bind fun _ => (block.header.verifySignature P).mapError .core

/-- The penalty for evidence against a validator. It is computed on a copy of the record, and the
copy is stored. -/
def slash (e : ConsensusEngine P W σ) (now : ℕ) (evidence : SlashReason) (validator : Address) :
    ConsensusEngine P W σ × Bool :=
  match e.chainState.currentEpoch.validatorSet.getValidator validator with
  | none => (e, false)
  | some vi =>
    let slasher : Slasher := ⟨e.config.consensusParams⟩
    let penalty := slasher.evaluateEvidence evidence vi
    match penalty.val with
    | none => (e, penalty.ovf)
    | some p =>
      let slashed := slasher.applySlash vi p now
      let storage := (Backend.perform (.putValidator slashed.val.address)
        (Database.putValidator slashed.val) e.chainState.storage).2
      ({ e with chainState := { e.chainState with storage } }, penalty.ovf || slashed.ovf)

/-- The key under which a block is remembered. -/
def seenKey (block : Block) : ℕ × Address := (block.header.number, block.header.validator)

/-- The evidence that a block gives against its validator. -/
def evidenceOf (e : ConsensusEngine P W σ) (block : Block) : Option SlashReason :=
  (e.seenBlocks.lookup (seenKey block)).bind fun prevHash =>
    if prevHash ≠ block.hash P then
      Slasher.detectDoubleSign prevHash (block.hash P) block.header.number
    else none

/-- The block is remembered, if none is for its key. -/
def remember (e : ConsensusEngine P W σ) (block : Block) : ConsensusEngine P W σ :=
  match e.seenBlocks.lookup (seenKey block) with
  | some _ => e
  | none => { e with seenBlocks := e.seenBlocks.insert (seenKey block) (block.hash P) }

def applyReceived (cfg : VmConfig) (su : Surroundings) (e : ConsensusEngine P W σ) (block : Block) :
    Option (EngineResult P W σ) :=
  (applyBlock P W cfg su.ord e.moduleCache e.chainState block).map fun a =>
    match a.result with
    | .error err => ⟨.error err, e.applied a, [], a.overflow⟩
    | .ok _ =>
      let r := (e.applied a).finishBlock su.epochTime (block.transactions.map (·.hash))
      let overflow := a.overflow || r.overflow
      match r.result with
      | .error err => { r with result := .error err, overflow }
      | .ok _ => { r with events := r.events ++ [.newBlock block], overflow }

/-- **`on_block_received`.** -/
def onBlockReceived (cfg : VmConfig) (su : Surroundings) (e : ConsensusEngine P W σ)
    (block : Block) : Option (EngineResult P W σ) :=
  let check := e.checkReceived block
  match check.val with
  | .error err => some ⟨.error err, e, [], check.ovf⟩
  | .ok _ =>
    match e.evidenceOf block with
    | some evidence =>
      let s := e.slash su.slashTime evidence block.header.validator
      some ⟨.error (.invalidBlock "double-sign detected"), s.1, [], check.ovf || s.2⟩
    | none => ((e.remember block).applyReceived cfg su block).map fun r =>
      { r with overflow := check.ovf || r.overflow }

/-! ### Transactions and votes -/

/-- **`on_transaction_received`** at the clock reading `now`. -/
def onTransactionReceived (e : ConsensusEngine P W σ) (tx : SignedTransaction) (now : ℕ) :
    EngineResult P W σ :=
  match e.txPool.insert tx now with
  | .error err => ⟨.error err, e, [], false⟩
  | .ok txPool => ⟨.ok (), { e with txPool }, [.transactionPooled tx.hash], false⟩

/-- **`on_vote_received`.** -/
def onVoteReceived (e : ConsensusEngine P W σ) (vote : FinalityVote) : EngineResult P W σ :=
  let r := e.finality.addVote P vote
  let e := { e with finality := r.2 }
  match r.1 with
  | .error err => ⟨.error err, e, [], false⟩
  | .ok .finalized => ⟨.ok (), e, [.blockFinalized e.finality.finalizedHeight], false⟩
  | .ok (.pending _ _) => ⟨.ok (), e, [], false⟩

end

end ConsensusEngine

end Rustchain.Consensus
