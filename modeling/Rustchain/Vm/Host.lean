import Rustchain.Vm.Context

/-! # Guests and host functions

A running WASM module is a `Guest`: it computes, and at each host call hands over the call with the
linear memory it exports and goes on with the answer. What wasmtime does between two host calls is
not looked into; a `Guest` is any such behaviour, and every run of it is finite. The host functions
are those that `register_host_functions` links, on the raw `i32` and `i64` arguments. -/

namespace Rustchain.Vm

open Rustchain.Core Storage Lib.Machine Lib.Maps

/-! ### Linear memory -/

/-- An exported linear memory: its size in bytes, and its bytes. -/
structure Memory where
  size : ℕ
  byte : ℕ → UInt8

/-- `p as usize` for an `i32`: the sign is extended. -/
def asUsize (p : Int32) : ℕ :=
  if 0 ≤ p.toInt then p.toInt.toNat else (2 ^ 64 + p.toInt).toNat

/-- `p as u64` for an `i32`. -/
def asU64 (p : Int32) : ℕ := asUsize p

/-- `a as u128` for an `i64`: the sign is extended. -/
def asU128 (a : Int64) : ℕ :=
  if 0 ≤ a.toInt then a.toInt.toNat else (2 ^ 128 + a.toInt).toNat

namespace Memory

/-- `memory.read` into a buffer of length `len`. -/
def read (m : Memory) (ptr len : ℕ) : Option Bytes :=
  if ptr + len ≤ m.size then some ((List.range len).map fun i => m.byte (ptr + i)) else none

/-- `memory.write`. -/
def write (m : Memory) (ptr : ℕ) (b : Bytes) : Option Memory :=
  if ptr + b.length ≤ m.size then
    some { m with byte := fun i => if ptr ≤ i ∧ i < ptr + b.length then b.getD (i - ptr) 0
                                   else m.byte i }
  else none

end Memory

/-! ### Host calls -/

inductive HostCall where
  | storageRead (keyPtr keyLen valPtr : Int32)
  | storageWrite (keyPtr keyLen valPtr valLen : Int32)
  | caller (outPtr : Int32)
  | selfAddress (outPtr : Int32)
  | blockNumber
  | blockTimestamp
  | chainId
  | selfBalance
  | transfer (toPtr : Int32) (amount : Int64)
  | emitEvent (topicsPtr topicsCount dataPtr dataLen : Int32)
  | abort (msgPtr msgLen : Int32)
  deriving DecidableEq

/-- What a host function returns to the guest. -/
inductive HostValue where
  | unit
  | i32 (v : Int32)
  | i64 (v : Int64)
  deriving DecidableEq

/-- Why an execution ended without a result: a trap of the guest, or `host_abort` with the bytes of
its message (`none` where it falls back to "contract aborted"). -/
inductive Trap where
  | guest (msg : String)
  | abort (msg : Option Bytes)
  deriving DecidableEq

/-- The behaviour of a guest from some point on. -/
inductive Guest (α : Type) where
  | done (a : α)
  | trap (msg : String)
  | call (c : HostCall) (mem : Option Memory) (k : HostValue → Option Memory → Guest α)

section
variable {M σ : Type} [Backend σ]

/-- `vec![0u8; len as usize]`: a negative length is too large for any allocation. -/
def allocBuffer (len : Int32) : VmM M σ ℕ := fun s =>
  if 0 ≤ len.toInt then some (asUsize len, s) else none

def hostStorageRead (keyPtr keyLen valPtr : Int32) (mem : Option Memory) :
    VmM M σ (HostValue × Option Memory) := do
  match ← consumeGas gasCosts.storageRead with
  | .error _ => return (.i32 (-1), mem)
  | .ok _ =>
    match mem with
    | none => return (.i32 (-1), mem)
    | some m =>
      let len ← allocBuffer keyLen
      match m.read (asUsize keyPtr) len with
      | none => return (.i32 (-1), mem)
      | some key =>
        let ctx ← getContext
        match ← storageRead ctx.contractAddress key with
        | .ok (some value) =>
          match m.write (asUsize valPtr) value with
          | none => return (.i32 (-1), mem)
          | some m' => return (.i32 (Int32.ofNat value.length), some m')
        | _ => return (.i32 0, mem)

/-- `host_storage_write`; the result of the gas charge is dropped. -/
def hostStorageWrite (keyPtr keyLen valPtr valLen : Int32) (mem : Option Memory) :
    VmM M σ (HostValue × Option Memory) := do
  let _ ← consumeGas gasCosts.storageWrite
  match mem with
  | none => return (.unit, mem)
  | some m =>
    let kl ← allocBuffer keyLen
    let vl ← allocBuffer valLen
    match m.read (asUsize keyPtr) kl, m.read (asUsize valPtr) vl with
    | some key, some value =>
      let ctx ← getContext
      storageWrite ctx.contractAddress key value
      return (.unit, mem)
    | _, _ => return (.unit, mem)

/-- Write 20 bytes to the guest and ignore a failure, as `host_caller` and `host_self_address` do.
-/
def writeAddress (addr : Address) (outPtr : Int32) (mem : Option Memory) : Option Memory :=
  mem.map fun m => (m.write (asUsize outPtr) addr.asBytes).getD m

/-- `host_self_balance`: the balance, truncated to 64 bits. -/
def hostSelfBalance (mem : Option Memory) : VmM M σ (HostValue × Option Memory) := do
  let ctx ← getContext
  match ← getBalance ctx.contractAddress with
  | .ok b => return (.i64 (Int64.ofNat b), mem)
  | .error _ => return (.i64 0, mem)

/-- Twenty bytes read from the guest, as an address. -/
def addressOfBytes (b : Bytes) : Address := ⟨Vector.ofFn fun i : Fin 20 => b.getD i 0⟩

def hostTransfer (toPtr : Int32) (amount : Int64) (mem : Option Memory) :
    VmM M σ (HostValue × Option Memory) := do
  match ← consumeGas gasCosts.transfer with
  | .error _ => return (.i32 (-1), mem)
  | .ok _ =>
    match mem with
    | none => return (.i32 (-1), mem)
    | some m =>
      match m.read (asUsize toPtr) 20 with
      | none => return (.i32 (-1), mem)
      | some toBytes =>
        let ctx ← getContext
        match ← transfer ctx.contractAddress (addressOfBytes toBytes) (asU128 amount) with
        | .ok _ => return (.i32 0, mem)
        | .error _ => return (.i32 (-1), mem)

/-- `host_emit_event`; the topics are not stored. -/
def hostEmitEvent (topicsCount dataPtr dataLen : Int32) (mem : Option Memory) :
    VmM M σ (HostValue × Option Memory) := do
  let topicCost ← arith (mulU 64 gasCosts.eventPerTopic (asU64 topicsCount))
  let dataCost ← arith (mulU 64 gasCosts.eventPerByte (asU64 dataLen))
  let cost ← arith (addU 64 gasCosts.eventBase topicCost)
  let cost ← arith (addU 64 cost dataCost)
  match ← consumeGas cost with
  | .error _ => return (.unit, mem)
  | .ok _ =>
    match mem with
    | none => return (.unit, mem)
    | some m =>
      let len ← allocBuffer dataLen
      match m.read (asUsize dataPtr) len with
      | none => return (.unit, mem)
      | some data =>
        modifyContext fun c => { c with logs := c.logs ++ [⟨c.contractAddress, [], data⟩] }
        return (.unit, mem)

/-- The message bytes `host_abort` traps with. -/
def hostAbort (msgPtr msgLen : Int32) (mem : Option Memory) : VmM M σ (Option Bytes) :=
  if 0 < msgLen.toInt then
    match mem with
    | none => return none
    | some m => do
      let len ← allocBuffer msgLen
      return m.read (asUsize msgPtr) len
  else return none

/-- The answer to a host call: values for the guest, or a trap. -/
def runHostCall (c : HostCall) (mem : Option Memory) :
    VmM M σ (Except Trap (HostValue × Option Memory)) :=
  match c with
  | .storageRead kp kl vp => .ok <$> hostStorageRead kp kl vp mem
  | .storageWrite kp kl vp vl => .ok <$> hostStorageWrite kp kl vp vl mem
  | .caller p => do return .ok (.unit, writeAddress (← getContext).caller p mem)
  | .selfAddress p => do return .ok (.unit, writeAddress (← getContext).contractAddress p mem)
  | .blockNumber => do return .ok (.i64 (Int64.ofNat (← getContext).blockNumber), mem)
  | .blockTimestamp => do return .ok (.i64 (Int64.ofNat (← getContext).blockTimestamp), mem)
  | .chainId => do return .ok (.i64 (Int64.ofNat (← getContext).chainId), mem)
  | .selfBalance => .ok <$> hostSelfBalance mem
  | .transfer p a => .ok <$> hostTransfer p a mem
  | .emitEvent _ tc dp dl => .ok <$> hostEmitEvent tc dp dl mem
  | .abort p l => do return .error (.abort (← hostAbort p l mem))

/-- Run a guest to its end: its result, or a trap. -/
def Guest.run {α : Type} : Guest α → VmM M σ (Except Trap α)
  | .done a => return .ok a
  | .trap msg => return .error (.guest msg)
  | .call c mem k => do
    match ← runHostCall c mem with
    | .ok (v, mem') => (k v mem').run
    | .error t => return .error t

end

end Rustchain.Vm
