import Rustchain.Vm.Host

/-! # The WASM engine

`WasmEngine` on top of a parameter `W : Wasmtime`, which stands for the runtime: validation and
compilation of modules, and the behaviour of instances as `Guest`s. The engine keeps compiled
modules in a cache under the hash of their code. -/

namespace Rustchain.Vm

open Rustchain.Core Storage Lib.Machine Lib.Maps

/-- The signatures the engine asks for with `get_typed_func`. -/
inductive FuncType where
  | i32ToI32
  | i32I32ToI32
  | unitToI32
  deriving DecidableEq

/-- The WASM runtime. -/
structure Wasmtime where
  Module : Type
  Instance : Type
  /-- `Module::validate`. -/
  validate : Bytes → Except String Unit
  /-- `Module::new`. -/
  compile : Bytes → Except String Module
  /-- `linker.instantiate` in a store with the given fuel, the start function included. -/
  instantiate : Module → Option ℕ → Guest Instance
  /-- Whether `get_typed_func` finds an export of this name and signature. -/
  hasFunc : Instance → String → FuncType → Bool
  /-- Call an exported function. -/
  call : Instance → String → List Int32 → Guest (Int32 × Instance)
  /-- The exported linear memory. -/
  memory : Instance → Option Memory
  /-- The instance with its memory replaced. -/
  setMemory : Instance → Memory → Instance
  /-- The text of an error that ended an execution. -/
  describe : Trap → String

structure VmConfig where
  maxCodeSize : ℕ
  fuelMetering : Bool

def VmConfig.default : VmConfig := ⟨256 * 1024, true⟩

structure DeployResult where
  contractAddress : Address
  codeHash : Blake3Hash
  gasUsed : ℕ
  logs : List EventLog

structure CallResult where
  returnData : Bytes
  gasUsed : ℕ
  logs : List EventLog
  status : TxStatus

/-- `result as u8` for an `i32`. -/
def asU8 (r : Int32) : UInt8 := UInt8.ofNat (asUsize r % 256)

/-- The contract address: the first 20 bytes of the hash of the caller and the block number. -/
def deployAddress (P : Primitives) (caller : Address) (blockNumber : ℕ) : Address :=
  (hashMultiple P [caller.asBytes, leBytes 64 blockNumber]).toAddress

section
variable (P : Primitives) (W : Wasmtime) (cfg : VmConfig) {σ : Type} [Backend σ]

def validateModule (bytecode : Bytes) : Except VmError Unit :=
  if bytecode.length > cfg.maxCodeSize then
    .error (.codeTooLarge cfg.maxCodeSize bytecode.length)
  else (W.validate bytecode).mapError .invalidModule

/-- What `compile_module` does on a cache miss. -/
def compileFresh (bytecode : Bytes) : Except VmError W.Module := do
  validateModule W cfg bytecode
  (W.compile bytecode).mapError .compilation

/-- `compile_module`: the cached module, or a new one that enters the cache. -/
def compileModule (bytecode : Bytes) :
    VmM W.Module σ (Except VmError (W.Module × Blake3Hash)) := fun s =>
  match s.moduleCache.lookup (P.blake3 bytecode) with
  | some module => some (.ok (module, P.blake3 bytecode), s)
  | none =>
    match compileFresh W cfg bytecode with
    | .error e => some (.error e, s)
    | .ok module =>
      some (.ok (module, P.blake3 bytecode),
        { s with moduleCache := s.moduleCache.insert (P.blake3 bytecode) module })

/-- A step of the guest whose trap becomes the error `onTrap`. -/
def runGuest {α : Type} (onTrap : String → VmError) (g : Guest α) :
    ExceptT VmError (VmM W.Module σ) α := ExceptT.mk do
  match ← g.run with
  | .ok a => return .ok a
  | .error t => return .error (onTrap (W.describe t))

def callPlain (inst : W.Instance) (functionName : String) :
    ExceptT VmError (VmM W.Module σ) Bytes := do
  if W.hasFunc inst functionName .unitToI32 = false then throw (.functionNotFound functionName)
  let (r, _) ← runGuest W .trap (W.call inst functionName [])
  return [asU8 r]

/-- Copy the arguments into memory that the guest allocates, and call the function on them. -/
def callWithArgs (inst : W.Instance) (functionName : String) (args : Bytes) :
    ExceptT VmError (VmM W.Module σ) Bytes := do
  let len := Int32.ofNat args.length
  let (ptr, inst) ← runGuest W .execution (W.call inst "allocate" [len])
  match W.memory inst with
  | none => throw (.execution "no memory export")
  | some mem =>
    match mem.write (asUsize ptr) args with
    | none =>
      -- `memory.size` counts pages of 64 KiB
      throw (.memoryOutOfBounds (asUsize ptr % 2 ^ 32) (args.length % 2 ^ 32)
        (mem.size / 65536 * 65536 % 2 ^ 32))
    | some mem =>
      let inst := W.setMemory inst mem
      if W.hasFunc inst functionName .i32I32ToI32 = false then
        throw (.functionNotFound functionName)
      let (r, _) ← runGuest W .trap (W.call inst functionName [ptr, len])
      return [asU8 r]

/-- What `execute_function` does inside the store. -/
def invoke (module : W.Module) (functionName : String) (args : Bytes) :
    ExceptT VmError (VmM W.Module σ) Bytes := do
  let ctx ← (getContext : VmM W.Module σ ExecutionContext)
  let fuel := if cfg.fuelMetering then some ctx.gasMeter.remaining else none
  let inst ← runGuest W .execution (W.instantiate module fuel)
  if args.isEmpty = false && W.hasFunc inst "allocate" .i32ToI32 then
    callWithArgs W inst functionName args
  else callPlain W inst functionName

/-- `execute_function`. The context is moved into the store and moved back on success only: after an
error the caller is left with the blank context. -/
def executeFunction (module : W.Module) (functionName : String) (args : Bytes) :
    VmM W.Module σ (Except VmError Bytes) := do
  match ← (invoke W cfg module functionName args).run with
  | .ok data => return .ok data
  | .error e =>
    modifyContext fun _ => ExecutionContext.blank
    return .error e

/-- `mem::take(&mut context.logs)`. -/
def takeLogs {M : Type} : VmM M σ (List EventLog) := do
  let ctx ← getContext
  modifyContext fun c => { c with logs := [] }
  return ctx.logs

/-- `gas_meter.consumed() - gas_before`. -/
def gasSince {M : Type} (gasBefore : ℕ) : VmM M σ ℕ := do
  let ctx ← getContext
  arith (subU 64 ctx.gasMeter.consumed gasBefore)

def deployContract (code constructorArgs : Bytes) :
    VmM W.Module σ (Except VmError DeployResult) := do
  match ← compileModule P W cfg code with
  | .error e => return .error e
  | .ok (module, codeHash) =>
    let ctx ← getContext
    let contractAddress := deployAddress P ctx.caller ctx.blockNumber
    modifyContext fun c => { c with contractAddress }
    let gasBefore := ctx.gasMeter.consumed
    match ← executeFunction W cfg module "init" constructorArgs with
    | .ok _ | .error (.functionNotFound _) =>
      let gasUsed ← gasSince gasBefore
      let logs ← takeLogs
      return .ok ⟨contractAddress, codeHash, gasUsed, logs⟩
    | .error e => return .error e

def cachedModule {M : Type} (codeHash : Blake3Hash) : VmM M σ (Option M) := fun s =>
  some (s.moduleCache.lookup codeHash, s)

/-- The module of a contract: from the cache, or compiled from the stored code. -/
def loadModule (codeHash : Blake3Hash) : VmM W.Module σ (Except VmError W.Module) := do
  match ← cachedModule codeHash with
  | some module => return .ok module
  | none =>
    match ← readState (getContractCode codeHash) with
    | .error e => return .error e
    | .ok none => return .error (.contractNotFound codeHash.toHex)
    | .ok (some bytecode) =>
      match ← compileModule P W cfg bytecode with
      | .error e => return .error e
      | .ok (module, _) => return .ok module

def callContract (codeHash : Blake3Hash) (function : String) (args : Bytes) :
    VmM W.Module σ (Except VmError CallResult) := do
  match ← loadModule P W cfg codeHash with
  | .error e => return .error e
  | .ok module =>
    let ctx ← getContext
    let gasBefore := ctx.gasMeter.consumed
    match ← executeFunction W cfg module function args with
    | .ok returnData =>
      let gasUsed ← gasSince gasBefore
      let logs ← takeLogs
      return .ok ⟨returnData, gasUsed, logs, .success⟩
    | .error (.outOfGas limit _) => return .ok ⟨[], limit, [], .outOfGas⟩
    | .error e =>
      let gasUsed ← gasSince gasBefore
      return .ok ⟨[], gasUsed, [], .failure e.display⟩

end

/-! ### A runtime that can be evaluated

It knows three binaries: a module without exports, one whose `call` returns zero, and one whose
`call` sends one unit to the address at the start of its zeroed memory. -/

namespace Small

inductive Module where
  | empty
  | zero
  | payer
  deriving DecidableEq

def emptyCode : Bytes := [0x00, 0x61, 0x73, 0x6d, 0x01, 0x00, 0x00, 0x00]

def zeroCode : Bytes :=
  emptyCode ++ [0x01, 0x05, 0x01, 0x60, 0x00, 0x01, 0x7f, 0x03, 0x02, 0x01, 0x00, 0x07, 0x08, 0x01,
    0x04, 0x63, 0x61, 0x6c, 0x6c, 0x00, 0x00, 0x0a, 0x06, 0x01, 0x04, 0x00, 0x41, 0x00, 0x0b]

def payerCode : Bytes :=
  emptyCode ++ [0x01, 0x0b, 0x02, 0x60, 0x02, 0x7f, 0x7e, 0x01, 0x7f, 0x60, 0x00, 0x01, 0x7f,
    0x02, 0x15, 0x01, 0x03, 0x65, 0x6e, 0x76, 0x0d, 0x68, 0x6f, 0x73, 0x74, 0x5f, 0x74, 0x72, 0x61,
    0x6e, 0x73, 0x66, 0x65, 0x72, 0x00, 0x00, 0x03, 0x02, 0x01, 0x01, 0x05, 0x03, 0x01, 0x00, 0x01,
    0x07, 0x11, 0x02, 0x06, 0x6d, 0x65, 0x6d, 0x6f, 0x72, 0x79, 0x02, 0x00, 0x04, 0x63, 0x61, 0x6c,
    0x6c, 0x00, 0x01, 0x0a, 0x0a, 0x01, 0x08, 0x00, 0x41, 0x00, 0x42, 0x01, 0x10, 0x00, 0x0b]

def compile (code : Bytes) : Except String Module :=
  if code = emptyCode then .ok .empty
  else if code = zeroCode then .ok .zero
  else if code = payerCode then .ok .payer
  else .error "unknown module"

structure Instance where
  module : Module
  memory : Option Memory

def call (inst : Instance) : Guest (Int32 × Instance) :=
  match inst.module with
  | .payer => .call (.transfer 0 1) inst.memory fun v mem =>
      .done (match v with | .i32 r => r | _ => 0, { inst with memory := mem })
  | _ => .done (0, inst)

end Small

def Wasmtime.small : Wasmtime where
  Module := Small.Module
  Instance := Small.Instance
  validate code := (Small.compile code).map fun _ => ()
  compile := Small.compile
  instantiate m _ := .done ⟨m, if m = .payer then some ⟨65536, fun _ => 0⟩ else none⟩
  hasFunc inst name t := decide (inst.module ≠ .empty ∧ name = "call" ∧ t = .unitToI32)
  call inst _ _ := Small.call inst
  memory inst := inst.memory
  setMemory inst mem := { inst with memory := some mem }
  describe
    | .guest msg => msg
    | .abort _ => "contract aborted"

end Rustchain.Vm
