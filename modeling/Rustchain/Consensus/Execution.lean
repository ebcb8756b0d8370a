import Mathlib.Data.String.Defs
import Rustchain.Vm.Engine

/-! # Executing the transactions of a block

The transaction loop of `ChainState::apply_block`. The loop works on an overlay `modified_accounts`
of account copies, which is written to the database only by the commit after the loop; contract
code, contract storage and validators are written during it. Errors of those writes and of account
reads are dropped, as in the source. -/

namespace Rustchain.Consensus

open Rustchain.Core Storage Vm Lib.Machine Lib.Maps

/-- The orders in which the loops over hash maps visit their entries. -/
structure HashOrders where
  balances : IterOrder (Sigma fun _ : Address => ℤ)
  storage : IterOrder (Sigma fun _ : Address × Bytes => Option Bytes)
  accounts : IterOrder (Sigma fun _ : Address => Account)

def HashOrders.listed : HashOrders := ⟨.listed _, .listed _, .listed _⟩

/-- The state of the transaction loop: what `apply_block` mutates, and its local variables. -/
structure Loop (M σ : Type) where
  storage : σ
  validatorSet : ValidatorSet
  moduleCache : HashMap Blake3Hash M
  modifiedAccounts : HashMap Address Account
  receipts : List TransactionReceipt
  totalGasUsed : ℕ
  overflow : Bool

/-- Steps of the loop: `none` is a panic. -/
abbrev ExecM (M σ : Type) := StateT (Loop M σ) Option

/-- What the branch of a transaction type says about its receipt. -/
structure Outcome where
  status : TxStatus
  gasUsed : ℕ
  logs : List EventLog := []
  contractAddress : Option Address := none
  returnData : Bytes := []

/-- The receipt of the transaction at index `i`. -/
def receiptOf (P : Primitives) (block : Block) (i : ℕ) (tx : SignedTransaction) (o : Outcome) :
    TransactionReceipt :=
  ⟨tx.hash, block.header.number, block.hash P, i % 2 ^ 32, o.status, o.gasUsed, o.logs,
    o.contractAddress, o.returnData⟩

def baseGas : ℕ := 21000

namespace Exec

section
variable {M σ α : Type}

def arith (x : Flagged α) : ExecM M σ α := fun l =>
  some (x.val, { l with overflow := l.overflow || x.ovf })

def insertAccount (addr : Address) (a : Account) : ExecM M σ Unit := fun l =>
  some ((), { l with modifiedAccounts := l.modifiedAccounts.insert addr a })

def getValidatorSet : ExecM M σ ValidatorSet := fun l => some (l.validatorSet, l)

def setValidatorSet (vs : ValidatorSet) : ExecM M σ Unit := fun l =>
  some ((), { l with validatorSet := vs })

def pushReceipt (r : TransactionReceipt) : ExecM M σ Unit := fun l =>
  some ((), { l with receipts := l.receipts ++ [r] })

/-- `total_gas_used += gas`. -/
def addGas (gas : ℕ) : ExecM M σ Unit := fun l =>
  some ((), { l with
    totalGasUsed := (addU 64 l.totalGasUsed gas).val
    overflow := l.overflow || (addU 64 l.totalGasUsed gas).ovf })

/-- Run the VM on a context of its own. -/
def runVm (context : ExecutionContext) (x : VmM M σ α) : ExecM M σ (α × ExecutionContext) :=
  fun l =>
    match x ⟨context, l.storage, l.moduleCache, l.overflow⟩ with
    | none => none
    | some (a, s) =>
      some ((a, s.context), { l with
        storage := s.storage, moduleCache := s.moduleCache, overflow := s.overflow })

variable [Backend σ]

/-- A write whose result is dropped. -/
def writeIgnored (op : StorageOp) (f : Database → Database) : ExecM M σ Unit := fun l =>
  some ((), { l with storage := (Backend.perform op f l.storage).2 })

/-- `modified_accounts.get(addr).cloned().or_else(|| storage.get_account(addr).ok().flatten())`. -/
def lookupAccount (addr : Address) : ExecM M σ (Option Account) := fun l =>
  match l.modifiedAccounts.lookup addr with
  | some a => some (some a, l)
  | none =>
    some ((getAccount addr l.storage).1.toOption.join,
      { l with storage := (getAccount addr l.storage).2 })

/-- The account of an address, a new one if there is none. -/
def getOrCreate (addr : Address) : ExecM M σ Account := do
  let a ← lookupAccount addr
  return a.getD (Account.new addr 0)

/-- The unused gas, paid back at the gas price. -/
def refundGas (tx : Transaction) (gasUsed : ℕ) (account : Account) : ExecM M σ Account := do
  let refund ← arith (mulU 64 (tx.gasLimit - gasUsed) tx.gasPrice)
  arith (account.credit refund)

/-! ### Flushing the results of the VM -/

/-- One step of `apply_balance_changes`. -/
def applyBalanceChange (addr : Address) (delta : ℤ) : ExecM M σ Unit := do
  let acct ← getOrCreate addr
  let base ← arith (toSigned 128 acct.balance)
  let sum ← arith (addI 128 base delta)
  insertAccount addr { acct with balance := (max sum 0).toNat }

def applyBalanceChanges (order : IterOrder (Sigma fun _ : Address => ℤ))
    (balanceChanges : HashMap Address ℤ) : ExecM M σ Unit :=
  (order.visit balanceChanges.entries).forM fun e => applyBalanceChange e.1 e.2

def applyStorageChange (key : Address × Bytes) (value : Option Bytes) : ExecM M σ Unit :=
  match value with
  | some v => writeIgnored (.putContractStorage key.1 key.2) (·.putContractStorage key.1 key.2 v)
  | none => writeIgnored (.deleteContractStorage key.1 key.2) (·.deleteContractStorage key.1 key.2)

def applyStorageChanges (order : IterOrder (Sigma fun _ : Address × Bytes => Option Bytes))
    (storageChanges : HashMap (Address × Bytes) (Option Bytes)) : ExecM M σ Unit :=
  (order.visit storageChanges.entries).forM fun e => applyStorageChange e.1 e.2

/-! ### The transaction types -/

/-- `TxType::Transfer`. -/
def executeTransfer (tx : Transaction) (senderAccount : Account) :
    ExecM M σ (Account × Outcome) := do
  let toAddr := tx.toAddr.getD Address.zero
  let toAccount ← getOrCreate toAddr
  let senderAccount ← arith (senderAccount.debit tx.value)
  let toAccount ← arith (toAccount.credit tx.value)
  insertAccount toAddr toAccount
  let senderAccount ← refundGas tx baseGas senderAccount
  return (senderAccount, { status := .success, gasUsed := baseGas })

/-- `TxType::Stake`. -/
def executeStake (signedTx : SignedTransaction) (senderAccount : Account) :
    ExecM M σ (Account × Outcome) := do
  let tx := signedTx.transaction
  let sender := signedTx.sender
  let senderAccount ← arith (senderAccount.debit tx.value)
  let vs ← getValidatorSet
  match vs.getValidator sender with
  | some vi =>
    let stake ← arith (addU 128 vi.stake tx.value)
    let vi := { vi with stake, isActive := true }
    setValidatorSet (vs.modifyValidator sender fun _ => vi)
    writeIgnored (.putValidator vi.address) (·.putValidator vi)
  | none =>
    let vi := ValidatorInfo.new sender signedTx.publicKey tx.value
    writeIgnored (.putValidator vi.address) (·.putValidator vi)
    setValidatorSet { vs with validators := vs.validators ++ [vi] }
  let vs ← arith (← getValidatorSet).recalculateTotalStake
  setValidatorSet vs
  let senderAccount ← refundGas tx baseGas senderAccount
  return (senderAccount, { status := .success, gasUsed := baseGas })

/-- `TxType::Unstake`. -/
def executeUnstake (signedTx : SignedTransaction) (senderAccount : Account) :
    ExecM M σ (Account × Outcome) := do
  let tx := signedTx.transaction
  let sender := signedTx.sender
  let vs ← getValidatorSet
  match vs.getValidator sender with
  | some vi =>
    if vi.stake < tx.value then
      let senderAccount ← refundGas tx baseGas senderAccount
      return (senderAccount,
        { status := .failure
            s!"insufficient stake: have {vi.stake}, want to unstake {tx.value}"
          gasUsed := baseGas })
    else
      let stake ← arith (subU 128 vi.stake tx.value)
      let vi := { vi with stake, isActive := if stake < vs.minStake then false else vi.isActive }
      setValidatorSet (vs.modifyValidator sender fun _ => vi)
      writeIgnored (.putValidator vi.address) (·.putValidator vi)
      let vs ← arith (← getValidatorSet).recalculateTotalStake
      setValidatorSet vs
      let senderAccount ← arith (senderAccount.credit tx.value)
      let senderAccount ← refundGas tx baseGas senderAccount
      return (senderAccount, { status := .success, gasUsed := baseGas })
  | none =>
    let senderAccount ← refundGas tx baseGas senderAccount
    return (senderAccount, { status := .failure "not a validator", gasUsed := baseGas })

/-- `extract_function_name`: a length-prefixed name and the arguments after it, or `"call"` with all
of the data. -/
def extractFunctionName (data : Bytes) : String × Bytes :=
  let nameLen := (data.getD 0 0).toNat + (data.getD 1 0).toNat * 256 +
    (data.getD 2 0).toNat * 256 ^ 2 + (data.getD 3 0).toNat * 256 ^ 3
  if 4 ≤ data.length ∧ 0 < nameLen ∧ nameLen ≤ 256 ∧ 4 + nameLen ≤ data.length then
    match String.fromUTF8? ⟨((data.drop 4).take nameLen).toArray⟩ with
    | some name => (name, data.drop (4 + nameLen))
    | none => ("call", data)
  else ("call", data)

end

section
variable (P : Primitives) (W : Wasmtime) (cfg : VmConfig) (ord : HashOrders)
variable {σ : Type} [Backend σ]

/-- The context a contract transaction starts with. -/
def contextFor (block : Block) (tx : Transaction) (sender contract : Address) :
    ExecutionContext :=
  .new sender sender contract tx.value block.header.number block.header.timestamp
    block.header.chainId tx.gasLimit

/-- The storage changes of an execution and then its balance changes. -/
def flush {M : Type} (context : ExecutionContext) : ExecM M σ Unit := do
  applyStorageChanges ord.storage context.storageChanges
  applyBalanceChanges ord.balances context.balanceChanges

/-- `TxType::ContractDeploy`. -/
def executeDeploy (block : Block) (tx : Transaction) (sender : Address) (senderAccount : Account) :
    ExecM W.Module σ (Account × Outcome) := do
  let (res, context) ← runVm (contextFor block tx sender Address.zero)
    (deployContract P W cfg tx.data [])
  match res with
  | .ok result =>
    writeIgnored (.putContractCode result.codeHash) (·.putContractCode result.codeHash tx.data)
    insertAccount result.contractAddress
      (Account.newContract result.contractAddress tx.value result.codeHash)
    flush ord context
    let senderAccount ← arith (senderAccount.debit tx.value)
    let senderAccount ← refundGas tx result.gasUsed senderAccount
    return (senderAccount,
      { status := .success, gasUsed := result.gasUsed, logs := result.logs
        contractAddress := some result.contractAddress })
  | .error e => return (senderAccount, { status := .failure e.display, gasUsed := tx.gasLimit })

/-- The part of `TxType::ContractCall` after the target was found to have code. -/
def executeCallOn (block : Block) (tx : Transaction) (sender toAddr : Address)
    (codeHash : Blake3Hash) (senderAccount : Account) :
    ExecM W.Module σ (Account × Outcome) := do
  let call := extractFunctionName tx.data
  let (res, context) ← runVm (contextFor block tx sender toAddr)
    (callContract P W cfg codeHash call.1 call.2)
  match res with
  | .ok result =>
    if result.status = .success then flush ord context
    let senderAccount ← refundGas tx result.gasUsed senderAccount
    return (senderAccount,
      { status := result.status, gasUsed := result.gasUsed, logs := result.logs
        returnData := result.returnData })
  | .error e => return (senderAccount, { status := .failure e.display, gasUsed := tx.gasLimit })

/-- `TxType::ContractCall`. -/
def executeCall (block : Block) (tx : Transaction) (sender : Address) (senderAccount : Account) :
    ExecM W.Module σ (Account × Outcome) := do
  let toAddr := tx.toAddr.getD Address.zero
  match ← lookupAccount toAddr with
  | some acct =>
    match acct.codeHash with
    | some codeHash => executeCallOn P W cfg ord block tx sender toAddr codeHash senderAccount
    | none =>
      return (senderAccount, { status := .failure "target is not a contract", gasUsed := 21000 })
  | none => return (senderAccount, { status := .failure "contract not found", gasUsed := 21000 })

def executeType (block : Block) (signedTx : SignedTransaction) (senderAccount : Account) :
    ExecM W.Module σ (Account × Outcome) :=
  match signedTx.transaction.txType with
  | .transfer => executeTransfer signedTx.transaction senderAccount
  | .contractDeploy =>
    executeDeploy P W cfg ord block signedTx.transaction signedTx.sender senderAccount
  | .contractCall =>
    executeCall P W cfg ord block signedTx.transaction signedTx.sender senderAccount
  | .stake => executeStake signedTx senderAccount
  | .unstake => executeUnstake signedTx senderAccount

/-- The body of the loop for a transaction that passed the nonce and the balance check. -/
def executeChecked (block : Block) (i : ℕ) (signedTx : SignedTransaction)
    (senderAccount : Account) : ExecM W.Module σ Unit := do
  let maxGasCost ← arith signedTx.transaction.maxGasCost
  let senderAccount ← arith (senderAccount.debit maxGasCost)
  let senderAccount ← arith senderAccount.incrementNonce
  let (senderAccount, outcome) ← executeType P W cfg ord block signedTx senderAccount
  addGas outcome.gasUsed
  insertAccount signedTx.sender senderAccount
  pushReceipt (receiptOf P block i signedTx outcome)

/-- **The body of the transaction loop.** -/
def executeTx (block : Block) (i : ℕ) (signedTx : SignedTransaction) : ExecM W.Module σ Unit := do
  let tx := signedTx.transaction
  let senderAccount ← getOrCreate signedTx.sender
  if tx.nonce ≠ senderAccount.nonce then
    pushReceipt (receiptOf P block i signedTx
      { status := .failure
          s!"nonce mismatch: expected {senderAccount.nonce}, got {tx.nonce}"
        gasUsed := 0 })
  else
    let totalCost ← arith tx.totalCost
    if senderAccount.hasSufficientBalance totalCost = false then
      pushReceipt (receiptOf P block i signedTx
        { status := .failure
            s!"insufficient balance: have {senderAccount.balance}, need {totalCost}"
          gasUsed := 0 })
    else executeChecked P W cfg ord block i signedTx senderAccount

end

section
variable (P : Primitives) (W : Wasmtime) (cfg : VmConfig) (ord : ℕ → HashOrders)
variable {σ : Type} [Backend σ]

/-- The loop over the transactions from index `i` on. Transaction `i` iterates its hash maps in the
order `ord i`. -/
def executeTxs (block : Block) : ℕ → List SignedTransaction → ExecM W.Module σ Unit
  | _, [] => return ()
  | i, tx :: rest => do
    executeTx P W cfg (ord i) block i tx
    executeTxs block (i + 1) rest

end

end Exec

end Rustchain.Consensus
