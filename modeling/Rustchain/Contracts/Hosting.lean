import Rustchain.Contracts.Sdk
import Rustchain.Vm.Deltas

/-! # The SDK on the host

What the SDK model says of a contract is what the host functions of the engine do: an execution
context *hosts* a contract when its journal over the database holds the contract's storage and its
delta over the account the contract's balance. The host calls that the SDK makes, within their gas
and with the arguments in memory, answer as the model says and keep hosting the state that the model
makes of it. -/

namespace Rustchain.Contracts

open Rustchain.Core Storage Lib.Machine Lib.Maps Lib.Partial
open Vm hiding Trap

variable {M : Type}

/-- What a contract's key holds: the journaled write, or else what the database has. -/
def stored (vm : VmState M Database) (key : Bytes) : Option Bytes :=
  (vm.context.storageChanges.lookup (vm.context.contractAddress, key)).getD
    (vm.storage.contractStorage.lookup (contractStorageKey vm.context.contractAddress key))

/-- **The execution hosts the contract.** -/
structure Hosts (vm : VmState M Database) (env : CallEnv) (s : ContractState) : Prop where
  caller : vm.context.caller = env.caller
  timestamp : vm.context.blockTimestamp = env.timestamp
  address : vm.context.contractAddress = s.address
  storage : ∀ key, stored vm key = s.storage.lookup key
  base_lt : storedBalance vm.storage s.address < 2 ^ 127
  balance : (storedBalance vm.storage s.address : ℤ) + vm.context.delta s.address = s.balance

/-- The meter covers a cost. -/
def HasGas (vm : VmState M Database) (cost : ℕ) : Prop :=
  vm.context.gasMeter.consumed + cost ≤ vm.context.gasMeter.limit ∧
    vm.context.gasMeter.limit < 2 ^ 64

/-- The state after gas was consumed. -/
def charged (vm : VmState M Database) (cost : ℕ) : VmState M Database :=
  { vm with context := { vm.context with
    gasMeter := ⟨vm.context.gasMeter.limit, vm.context.gasMeter.consumed + cost⟩ } }

section
variable {vm : VmState M Database} {env : CallEnv} {s : ContractState} {cost : ℕ}

theorem consumeGas_run (h : HasGas vm cost) :
    consumeGas cost vm = some (.ok (), charged vm cost) := by
  obtain ⟨hle, hlt⟩ := h
  have hmin : min (vm.context.gasMeter.consumed + cost) (2 ^ 64 - 1) =
      vm.context.gasMeter.consumed + cost := min_eq_left (by omega)
  unfold consumeGas GasMeter.consume
  simp only [hmin, if_neg (Nat.not_lt.mpr hle)]
  rfl

/-- The gas is not part of what a contract sees. -/
theorem Hosts.withGas (h : Hosts vm env s) (g : GasMeter) :
    Hosts { vm with context := { vm.context with gasMeter := g } } env s :=
  ⟨h.caller, h.timestamp, h.address, h.storage, h.base_lt, h.balance⟩

theorem Hosts.charged (h : Hosts vm env s) (cost : ℕ) : Hosts (charged vm cost) env s :=
  h.withGas _

theorem storageRead_stored (vm : VmState M Database) (key : Bytes) :
    Vm.storageRead vm.context.contractAddress key vm = some (.ok (stored vm key), vm) :=
  Vm.storageRead_run _ key vm

theorem storageRead_run (h : Hosts vm env s) (key : Bytes) :
    Vm.storageRead vm.context.contractAddress key vm = some (.ok (s.storage.lookup key), vm) := by
  rw [← h.storage key]
  exact storageRead_stored vm key

theorem allocBuffer_run {len : Int32} (h : 0 ≤ len.toInt) :
    allocBuffer len vm = some (asUsize len, vm) := if_pos h

theorem read_of_write {m m' : Memory} {ptr : ℕ} {b : Bytes} (h : m.write ptr b = some m') :
    m'.read ptr b.length = some b := by
  unfold Memory.write at h
  split_ifs at h with hfit
  obtain rfl := Option.some.inj h
  refine (if_pos hfit).trans (congrArg some (List.ext_getElem (by simp) fun i hi hi' => ?_))
  simp only [List.getElem_map, List.getElem_range]
  rw [if_pos ⟨Nat.le_add_right _ _, by omega⟩, Nat.add_sub_cancel_left,
    List.getD_eq_getElem?_getD, List.getElem?_eq_getElem hi', Option.getD_some]

/-! ### Caller and time -/

/-- **`caller` on the host** leaves the address in the buffer. -/
theorem hostCaller_run (h : Hosts vm env s) {m : Memory} {outPtr : Int32}
    (hbuf : asUsize outPtr + 20 ≤ m.size) :
    ∃ m', runHostCall (.caller outPtr) (some m) vm = some (.ok (.unit, some m'), vm) ∧
      m'.read (asUsize outPtr) 20 = some env.caller.asBytes := by
  have hlen := env.caller.length_asBytes
  obtain ⟨m', hwrite⟩ : ∃ m', m.write (asUsize outPtr) env.caller.asBytes = some m' :=
    ⟨_, if_pos (by omega)⟩
  refine ⟨m', ?_, hlen ▸ read_of_write hwrite⟩
  have hanswer : writeAddress vm.context.caller outPtr (some m) = some m' := by
    unfold writeAddress
    rw [h.caller, Option.map_some, hwrite, Option.getD_some]
  unfold runHostCall
  dsimp only
  rw [bind_of_eq (getContext_run vm), hanswer]
  rfl

/-- **`block_timestamp` on the host.** -/
theorem hostBlockTimestamp_run (h : Hosts vm env s) (mem : Option Memory) :
    runHostCall .blockTimestamp mem vm =
      some (.ok (.i64 (Int64.ofNat env.timestamp), mem), vm) := by
  unfold runHostCall
  dsimp only
  rw [bind_of_eq (getContext_run vm), h.timestamp]
  rfl

/-! ### Storage -/

theorem toInt_ofNat_length {n : ℕ} (h : n ≤ 4096) : (Int32.ofNat n).toInt = n :=
  Int32.toInt_ofNat_of_lt (by omega)

/-- What the SDK makes of the answer: a positive number is the length of the value in the buffer. -/
def answered (ptr : ℕ) : HostValue × Option Memory → Option Bytes
  | (.i32 len, some m) => if 0 < len.toInt then m.read ptr (asUsize len) else none
  | _ => none

theorem answered_length {ptr : ℕ} {m m' : Memory} {value : Bytes} (hlen : value.length ≤ 4096)
    (h : m.write ptr value = some m') :
    answered ptr (.i32 (Int32.ofNat value.length), some m') =
      (some value).filter fun v => !v.isEmpty := by
  have hint := toInt_ofNat_length hlen
  have husize : asUsize (Int32.ofNat value.length) = value.length := by
    unfold asUsize
    rw [hint, if_pos (by omega), Int.toNat_natCast]
  unfold answered
  dsimp only
  rw [hint, husize, read_of_write h]
  cases value with
  | nil => rfl
  | cons b rest => exact if_pos (by simp only [List.length_cons]; omega)

/-- **`storage_read` on the host.** Values are at most as long as the buffer of the SDK. -/
theorem hostStorageRead_run (h : Hosts vm env s) (hgas : HasGas vm gasCosts.storageRead)
    {m : Memory} {keyPtr keyLen valPtr : Int32} {key : Bytes} (hlen : 0 ≤ keyLen.toInt)
    (hkey : m.read (asUsize keyPtr) (asUsize keyLen) = some key)
    (hbuf : asUsize valPtr + 4096 ≤ m.size)
    (hvalue : ∀ value, s.storage.lookup key = some value → value.length ≤ 4096) :
    ∃ answer, hostStorageRead keyPtr keyLen valPtr (some m) vm =
        some (answer, charged vm gasCosts.storageRead) ∧
      answered (asUsize valPtr) answer = s.storageRead key := by
  have hread := storageRead_run (h.charged gasCosts.storageRead) key
  unfold hostStorageRead ContractState.storageRead
  rw [bind_of_eq (consumeGas_run hgas)]
  dsimp only
  rw [bind_of_eq (allocBuffer_run hlen), hkey]
  dsimp only
  rw [bind_of_eq (getContext_run _), bind_of_eq hread]
  cases hlookup : s.storage.lookup key with
  | none => exact ⟨_, rfl, rfl⟩
  | some value =>
    have hfit := hvalue value hlookup
    obtain ⟨m', hwrite⟩ : ∃ m', m.write (asUsize valPtr) value = some m' :=
      ⟨_, if_pos (by omega)⟩
    dsimp only
    rw [hwrite]
    exact ⟨_, rfl, answered_length hfit hwrite⟩

/-- The state after a write was journaled. -/
def journaled (vm : VmState M Database) (key value : Bytes) : VmState M Database :=
  let changes := vm.context.storageChanges.insert (vm.context.contractAddress, key) (some value)
  { vm with context := { vm.context with storageChanges := changes } }

theorem stored_journaled (key value k : Bytes) :
    stored (journaled vm key value) k = if k = key then some value else stored vm k := by
  unfold stored journaled
  dsimp only
  split_ifs with hk
  · rw [hk, AList.lookup_insert, Option.getD_some]
  · rw [AList.lookup_insert_ne fun he => hk (Prod.mk.inj he).2]

theorem Hosts.journaled (h : Hosts vm env s) (key value : Bytes) :
    Hosts (journaled vm key value) env (s.storageWrite key value) := by
  refine ⟨h.caller, h.timestamp, h.address, fun k => ?_, h.base_lt, h.balance⟩
  rw [stored_journaled]
  show _ = (s.storage.insert key value).lookup k
  split_ifs with hk
  · rw [hk, Finmap.lookup_insert]
  · rw [Finmap.lookup_insert_of_ne _ hk, h.storage]

/-- **`storage_write` on the host** goes through with or without the gas for it. -/
theorem hostStorageWrite_run (h : Hosts vm env s) {m : Memory}
    {keyPtr keyLen valPtr valLen : Int32} {key value : Bytes} (hkl : 0 ≤ keyLen.toInt)
    (hvl : 0 ≤ valLen.toInt) (hkey : m.read (asUsize keyPtr) (asUsize keyLen) = some key)
    (hvalue : m.read (asUsize valPtr) (asUsize valLen) = some value) :
    ∃ vm', hostStorageWrite keyPtr keyLen valPtr valLen (some m) vm =
        some ((.unit, some m), vm') ∧ Hosts vm' env (s.storageWrite key value) := by
  have hgas : consumeGas gasCosts.storageWrite vm = some (_, _) := rfl
  refine ⟨_, ?_, (h.withGas (vm.context.gasMeter.consume gasCosts.storageWrite).2).journaled
    key value⟩
  unfold hostStorageWrite
  rw [bind_of_eq hgas]
  dsimp only
  rw [bind_of_eq (allocBuffer_run hkl), bind_of_eq (allocBuffer_run hvl), hkey, hvalue]
  rfl

/-! ### Balance -/

theorem seenBalance_of_hosts (h : Hosts vm env s) :
    seenBalance (storedBalance vm.storage s.address) (vm.context.delta s.address) =
      ⟨s.balance, false⟩ :=
  seenBalance_of_below h.base_lt s.balance_lt h.balance

theorem getBalance_of_hosts (h : Hosts vm env s) :
    getBalance s.address vm = some (.ok s.balance, vm) := by
  rw [getBalance_run, seenBalance_of_hosts h, Bool.or_false]

/-- **`self_balance` on the host.** The SDK reads the number as a `u64`. -/
theorem hostSelfBalance_run (h : Hosts vm env s) (mem : Option Memory) :
    ∃ b : Int64, hostSelfBalance mem vm = some ((.i64 b, mem), vm) ∧
      b.toUInt64.toNat = s.selfBalance := by
  refine ⟨Int64.ofNat s.balance, ?_, ?_⟩
  · unfold hostSelfBalance
    rw [bind_of_eq (getContext_run vm), h.address, bind_of_eq (getBalance_of_hosts h)]
    rfl
  · exact UInt64.toNat_ofNat'

theorem Hosts.send (h : Hosts vm env s) {target : Address} {amount : ℕ}
    (hle : amount ≤ s.balance) {d : ℤ} (b : Bool)
    (hd : target = s.address → d = vm.context.delta s.address) :
    Hosts { vm with
      context := (vm.context.withDelta s.address (vm.context.delta s.address - amount)).withDelta
        target d
      overflow := b } env (s.send target amount) := by
  refine ⟨h.caller, h.timestamp, h.address, h.storage, h.base_lt, ?_⟩
  have hbalance := h.balance
  show (storedBalance vm.storage s.address : ℤ) + ExecutionContext.delta _ s.address =
    ((if target = s.address then s.balance else s.balance - amount : ℕ) : ℤ)
  rw [delta_withDelta, delta_withDelta, if_pos rfl]
  by_cases ht : target = s.address
  · rw [if_pos ht.symm, if_pos ht, hd ht]
    exact hbalance
  · rw [if_neg (Ne.symm ht), if_neg ht]
    omega

theorem transfer_of_hosts (h : Hosts vm env s) (target : Address) (amount : ℕ) :
    (s.balance < amount ∧ ∃ e, Vm.transfer s.address target amount vm = some (.error e, vm)) ∨
      (amount ≤ s.balance ∧ ∃ vm', Vm.transfer s.address target amount vm = some (.ok (), vm') ∧
        Hosts vm' env (s.send target amount)) := by
  have hbase := h.base_lt
  have hbalance := h.balance
  have hlt := s.balance_lt
  obtain hcovered | hle := Nat.lt_or_ge s.balance amount
  · exact .inl ⟨hcovered, _, transfer_of_lt (getBalance_of_hosts h) hcovered⟩
  · refine .inr ⟨hle, _, transfer_of_le (getBalance_of_hosts h) hle, ?_⟩
    have hsigned : toSigned 128 amount = ⟨amount, false⟩ :=
      fitI_128 (by omega) (by omega)
    have hsub : subI 128 (vm.context.delta s.address) amount =
        ⟨vm.context.delta s.address - amount, false⟩ :=
      fitI_128 (by omega) (by omega)
    unfold ExecutionContext.moved
    simp only [val_bind, val_pure, hsigned, hsub]
    refine h.send hle _ fun ht => ?_
    -- What a contract sends to itself is added to the delta it was just taken from.
    rw [ht, delta_withDelta, if_pos rfl]
    unfold addI
    rw [Int.sub_add_cancel, fitI_128 (by omega) (by omega)]

/-- **`transfer` on the host** answers `0` exactly when the model's transfer goes through. -/
theorem hostTransfer_run (h : Hosts vm env s) (hgas : HasGas vm gasCosts.transfer) {m : Memory}
    {toPtr : Int32} {target : Address} (hto : m.read (asUsize toPtr) 20 = some target.asBytes)
    (amount : ℕ) :
    ∃ (r : Int32) (vm' : VmState M Database),
      hostTransfer toPtr (Int64.ofNat amount) (some m) vm = some ((.i32 r, some m), vm') ∧
        decide (r = 0) = (s.transfer target amount).1 ∧
        Hosts vm' env (s.transfer target amount).2 := by
  have hc := h.charged gasCosts.transfer
  have haddress : (charged vm gasCosts.transfer).context.contractAddress = s.address := hc.address
  unfold hostTransfer ContractState.transfer
  rw [bind_of_eq (consumeGas_run hgas)]
  dsimp only
  rw [hto]
  dsimp only
  rw [bind_of_eq (getContext_run _), haddress, ContractState.addressOfBytes_asBytes]
  rcases transfer_of_hosts hc target (asU128 (Int64.ofNat amount)) with
    ⟨hlt, e, hrun⟩ | ⟨hle, vm', hrun, hsend⟩
  · rw [bind_of_eq hrun, if_pos hlt]
    exact ⟨-1, _, rfl, rfl, hc⟩
  · rw [bind_of_eq hrun, if_neg (Nat.not_lt.mpr hle)]
    exact ⟨0, vm', rfl, rfl, hsend⟩

end

/-! ### Programs -/

/-- What a contract does with the SDK until it returns; each call goes on with its answer. -/
inductive Program where
  | done
  | caller (next : Address → Program)
  | blockTimestamp (next : ℕ → Program)
  | storageRead (key : Bytes) (next : Option Bytes → Program)
  | storageWrite (key value : Bytes) (next : Program)
  | selfBalance (next : ℕ → Program)
  | transfer (target : Address) (amount : ℕ) (next : Bool → Program)

/-- A buffer of the guest holds some bytes. -/
def Holds (m : Memory) (ptr len : Int32) (b : Bytes) : Prop :=
  0 ≤ len.toInt ∧ m.read (asUsize ptr) (asUsize len) = some b

/-- **The host runs the program as the model does**: wherever in its memory the contract puts the
arguments, each call within its gas returns the answer of the model, and with it the rest of the
program goes on in the same way. Written values are at most as long as the buffer of the SDK. -/
def Program.Agrees (env : CallEnv) : Program → VmState M Database → ContractState → Prop
  | .done, vm, s => Hosts vm env s
  | .caller next, vm, s => ∀ m outPtr, asUsize outPtr + 20 ≤ m.size →
    ∃ m', runHostCall (.caller outPtr) (some m) vm = some (.ok (.unit, some m'), vm) ∧
      m'.read (asUsize outPtr) 20 = some env.caller.asBytes ∧ (next env.caller).Agrees env vm s
  | .blockTimestamp next, vm, s => ∀ mem, ∃ b : Int64,
    runHostCall .blockTimestamp mem vm = some (.ok (.i64 b, mem), vm) ∧
      b.toUInt64.toNat = env.timestamp ∧ (next env.timestamp).Agrees env vm s
  | .storageRead key next, vm, s => ∀ m keyPtr keyLen valPtr, Holds m keyPtr keyLen key →
    asUsize valPtr + 4096 ≤ m.size → HasGas vm gasCosts.storageRead → ∃ answer vm',
      hostStorageRead keyPtr keyLen valPtr (some m) vm = some (answer, vm') ∧
        answered (asUsize valPtr) answer = s.storageRead key ∧
        (next (s.storageRead key)).Agrees env vm' s
  | .storageWrite key value next, vm, s => ∀ m keyPtr keyLen valPtr valLen,
    Holds m keyPtr keyLen key → Holds m valPtr valLen value → value.length ≤ 4096 → ∃ vm',
      hostStorageWrite keyPtr keyLen valPtr valLen (some m) vm = some ((.unit, some m), vm') ∧
        next.Agrees env vm' (s.storageWrite key value)
  | .selfBalance next, vm, s => ∀ mem, ∃ b : Int64,
    hostSelfBalance mem vm = some ((.i64 b, mem), vm) ∧ b.toUInt64.toNat = s.selfBalance ∧
      (next s.selfBalance).Agrees env vm s
  | .transfer target amount next, vm, s => ∀ m toPtr,
    m.read (asUsize toPtr) 20 = some target.asBytes → HasGas vm gasCosts.transfer →
    ∃ (r : Int32) (vm' : VmState M Database),
      hostTransfer toPtr (Int64.ofNat amount) (some m) vm = some ((.i32 r, some m), vm') ∧
        decide (r = 0) = (s.transfer target amount).1 ∧
        (next (s.transfer target amount).1).Agrees env vm' (s.transfer target amount).2

/-- The values in storage are at most as long as the buffer of the SDK. -/
def ShortValues (s : ContractState) : Prop :=
  ∀ key value, s.storage.lookup key = some value → value.length ≤ 4096

theorem ShortValues.storageWrite {s : ContractState} (h : ShortValues s) {key value : Bytes}
    (hv : value.length ≤ 4096) : ShortValues (s.storageWrite key value) := by
  intro k v hk
  change (s.storage.insert key value).lookup k = some v at hk
  by_cases hkey : k = key
  · rw [hkey, Finmap.lookup_insert] at hk
    exact Option.some.inj hk ▸ hv
  · rw [Finmap.lookup_insert_of_ne _ hkey] at hk
    exact h k v hk

theorem ShortValues.transfer {s : ContractState} (h : ShortValues s) (target : Address)
    (amount : ℕ) : ShortValues (s.transfer target amount).2 := by
  unfold ContractState.transfer
  dsimp only
  split_ifs
  · exact h
  · exact h

/-- **Every program of SDK calls runs on the host as it does on the model.** -/
theorem agrees_of_hosts (p : Program) {vm : VmState M Database} {env : CallEnv}
    {s : ContractState} (h : Hosts vm env s) (htime : env.timestamp < 2 ^ 64)
    (hshort : ShortValues s) : p.Agrees env vm s := by
  induction p generalizing vm s with
  | done => exact h
  | caller next ih =>
    intro m outPtr hbuf
    obtain ⟨m', hrun, hread⟩ := hostCaller_run h hbuf
    exact ⟨m', hrun, hread, ih _ h hshort⟩
  | blockTimestamp next ih =>
    refine fun mem => ⟨_, hostBlockTimestamp_run h mem, ?_, ih _ h hshort⟩
    exact UInt64.toNat_ofNat'.trans (Nat.mod_eq_of_lt htime)
  | storageRead key next ih =>
    rintro m keyPtr keyLen valPtr ⟨hlen, hkey⟩ hbuf hgas
    obtain ⟨answer, hrun, hanswer⟩ := hostStorageRead_run h hgas hlen hkey hbuf (hshort key)
    exact ⟨answer, _, hrun, hanswer, ih _ (h.charged _) hshort⟩
  | storageWrite key value next ih =>
    rintro m keyPtr keyLen valPtr valLen ⟨hkl, hkey⟩ ⟨hvl, hvalue⟩ hfit
    obtain ⟨vm', hrun, hvm⟩ := hostStorageWrite_run h hkl hvl hkey hvalue
    exact ⟨vm', hrun, ih hvm (hshort.storageWrite hfit)⟩
  | selfBalance next ih =>
    intro mem
    obtain ⟨b, hrun, hb⟩ := hostSelfBalance_run h mem
    exact ⟨b, hrun, hb, ih _ h hshort⟩
  | transfer target amount next ih =>
    intro m toPtr hto hgas
    obtain ⟨r, vm', hrun, hr, hvm⟩ := hostTransfer_run h hgas hto amount
    exact ⟨r, vm', hrun, hr, ih _ hvm (hshort.transfer target amount)⟩

/-- A read, a write of what it answered under another key, and a payment. -/
theorem copy_and_pay_agrees : Program.Agrees ⟨.zero, 0⟩
    (.storageRead [1] fun v => .storageWrite [2] (v.getD []) (.transfer .zero 7 fun _ => .done))
    (⟨.new .zero .zero .zero 0 0 0 1 10000, .empty, ∅, false⟩ : VmState Unit Database)
    (.new .zero) := by
  refine agrees_of_hosts _ ⟨rfl, rfl, rfl, fun _ => rfl, by decide, rfl⟩ (by decide) fun k v h => ?_
  cases h

end Rustchain.Contracts
