import Rustchain.Storage.Database

/-! # Gas meter and execution context

The state of one contract execution. The context keeps a journal of storage writes and a map of
balance deltas; reads go to the journal first and then to the state reader, which is the database
behind the chain state. The monad `VmM` carries the context together with the database handle, the
module cache of the engine and the overflow flag; it has no result where the host panics. -/

namespace Rustchain.Vm

open Rustchain.Core Storage Lib.Machine Lib.Maps

/-! ### Errors -/

inductive VmError where
  | compilation (msg : String)
  | execution (msg : String)
  | outOfGas (limit used : ℕ)
  | memoryOutOfBounds (offset len memorySize : ℕ)
  | codeTooLarge (max got : ℕ)
  | invalidModule (msg : String)
  | functionNotFound (name : String)
  | contractNotFound (hash : String)
  | hostFunction (msg : String)
  | trap (msg : String)
  | state (msg : String)
  deriving DecidableEq, Repr

def VmError.display : VmError → String
  | .compilation m => s!"compilation error: {m}"
  | .execution m => s!"execution error: {m}"
  | .outOfGas limit used => s!"out of gas: limit {limit}, used {used}"
  | .memoryOutOfBounds offset len size =>
    s!"memory access out of bounds: offset {offset}, len {len}, memory_size {size}"
  | .codeTooLarge max got => s!"code too large: max {max}, got {got}"
  | .invalidModule m => s!"invalid module: {m}"
  | .functionNotFound n => s!"function not found: {n}"
  | .contractNotFound h => s!"contract not found: {h}"
  | .hostFunction m => s!"host function error: {m}"
  | .trap m => s!"trap: {m}"
  | .state m => s!"state error: {m}"

/-! ### Gas -/

structure GasMeter where
  limit : ℕ
  consumed : ℕ
  deriving DecidableEq, Repr

namespace GasMeter

def new (limit : ℕ) : GasMeter := ⟨limit, 0⟩

/-- `consume`: an addition that saturates, and the meter stays at its limit when it is exceeded. -/
def consume (m : GasMeter) (amount : ℕ) : Except VmError Unit × GasMeter :=
  let newConsumed := min (m.consumed + amount) (2 ^ 64 - 1)
  if newConsumed > m.limit then
    (.error (.outOfGas m.limit newConsumed), { m with consumed := m.limit })
  else (.ok (), { m with consumed := newConsumed })

def remaining (m : GasMeter) : ℕ := m.limit - m.consumed

end GasMeter

/-- The cost table of the host operations. -/
structure GasCosts where
  storageRead : ℕ
  storageWrite : ℕ
  transfer : ℕ
  eventBase : ℕ
  eventPerTopic : ℕ
  eventPerByte : ℕ

/-- `GasCosts::default()`. -/
def gasCosts : GasCosts := ⟨200, 5000, 2300, 375, 375, 8⟩

/-! ### The context -/

structure ExecutionContext where
  caller : Address
  origin : Address
  contractAddress : Address
  value : ℕ
  blockNumber : ℕ
  blockTimestamp : ℕ
  chainId : ℕ
  gasMeter : GasMeter
  logs : List EventLog
  /-- Journaled writes; `none` deletes. -/
  storageChanges : HashMap (Address × Bytes) (Option Bytes)
  balanceChanges : HashMap Address ℤ
  deriving DecidableEq

def ExecutionContext.new (caller origin contractAddress : Address) (value : ℕ)
    (blockNumber : ℕ) (blockTimestamp : ℕ) (chainId : ℕ) (gasLimit : ℕ) :
    ExecutionContext :=
  ⟨caller, origin, contractAddress, value, blockNumber, blockTimestamp, chainId,
    GasMeter.new gasLimit, [], ∅, ∅⟩

/-- What `execute_function` leaves in the caller's context while the contract runs. -/
def ExecutionContext.blank : ExecutionContext :=
  .new Address.zero Address.zero Address.zero 0 0 0 0 0

/-- What an execution changes: the context, the database handle its state reader reads through, the
module cache of the engine (modules of type `M`), and the record of an overflow. -/
structure VmState (M σ : Type) where
  context : ExecutionContext
  storage : σ
  moduleCache : HashMap Blake3Hash M
  overflow : Bool

/-- Executions: `none` is a panic of the host. -/
abbrev VmM (M σ : Type) := StateT (VmState M σ) Option

section
variable {M σ α : Type}

def arith (x : Flagged α) : VmM M σ α := fun s =>
  some (x.val, { s with overflow := s.overflow || x.ovf })

def readState (f : σ → Except StorageError α × σ) : VmM M σ (Except VmError α) := fun s =>
  some ((f s.storage).1.mapError fun e => .state e.display, { s with storage := (f s.storage).2 })

def getContext : VmM M σ ExecutionContext := fun s => some (s.context, s)

def modifyContext (f : ExecutionContext → ExecutionContext) : VmM M σ Unit := fun s =>
  some ((), { s with context := f s.context })

/-- `gas_meter.consume`. -/
def consumeGas (amount : ℕ) : VmM M σ (Except VmError Unit) := fun s =>
  some ((s.context.gasMeter.consume amount).1,
    { s with context := { s.context with gasMeter := (s.context.gasMeter.consume amount).2 } })

variable [Backend σ]

def storageRead (addr : Address) (key : Bytes) : VmM M σ (Except VmError (Option Bytes)) := do
  let ctx ← getContext
  match ctx.storageChanges.lookup (addr, key) with
  | some value => return .ok value
  | none => readState (getContractStorage addr key)

def storageWrite (addr : Address) (key value : Bytes) : VmM M σ Unit :=
  modifyContext fun c =>
    { c with storageChanges := c.storageChanges.insert (addr, key) (some value) }

def storageDelete (addr : Address) (key : Bytes) : VmM M σ Unit :=
  modifyContext fun c => { c with storageChanges := c.storageChanges.insert (addr, key) none }

/-- The delta of an address, `0` if there is none. -/
def ExecutionContext.delta (c : ExecutionContext) (addr : Address) : ℤ :=
  (c.balanceChanges.lookup addr).getD 0

/-- `ExecutionContext::get_balance`: the base balance plus the delta, and `0` if that is negative.
-/
def getBalance (addr : Address) : VmM M σ (Except VmError ℕ) := do
  match ← readState (getAccount addr) with
  | .error e => return .error e
  | .ok account =>
    let ctx ← getContext
    let base ← arith (toSigned 128 ((account.map (·.balance)).getD 0))
    let sum ← arith (addI 128 base (ctx.delta addr))
    return .ok (max sum 0).toNat

/-- `*entry(addr).or_insert(0) = f(..)`. -/
def setDelta (addr : Address) (d : ℤ) : VmM M σ Unit :=
  modifyContext fun c => { c with balanceChanges := c.balanceChanges.insert addr d }

def transfer (source target : Address) (amount : ℕ) : VmM M σ (Except VmError Unit) := do
  match ← getBalance source with
  | .error e => return .error e
  | .ok have_ =>
    if have_ < amount then
      return .error (.hostFunction s!"insufficient balance: have {have_}, need {amount}")
    else
      let a ← arith (toSigned 128 amount)
      let ctx ← getContext
      let d ← arith (subI 128 (ctx.delta source) a)
      setDelta source d
      let ctx ← getContext
      let d ← arith (addI 128 (ctx.delta target) a)
      setDelta target d
      return .ok ()

end

end Rustchain.Vm
