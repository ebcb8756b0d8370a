import Rustchain.Vm.Host
import Mathlib.Data.Finite.Prod

/-! # The contract SDK

What a contract written against `rustchain_sdk` sees of the chain: its storage, its balance, the
caller and the time, and the helpers by which the contracts store numbers and addresses. A call
returns a number and the new state, or it traps, and then nothing that it did remains. The calls of
the host are taken to be within the gas limit. -/

namespace Rustchain.Contracts

open Rustchain.Core Lib.Machine Lib.Maps
open Vm (asU128 addressOfBytes)

/-- There are finitely many addresses. -/
noncomputable instance : Fintype Address :=
  have : Finite Address := Finite.of_injective
    (fun (a : Address) (i : Fin 20) => (a.bytes.get i).toFin) fun a b h => by
      have hbytes : a.bytes = b.bytes := Vector.ext fun i hi =>
        UInt8.toFin_inj.mp (congrFun h ⟨i, hi⟩)
      cases a
      cases b
      exact congrArg _ hbytes
  Fintype.ofFinite Address

/-- A contract: its account, its storage, and what it has sent and logged. The balance is what
`get_balance` reports, which is an `i128` that is not negative. -/
structure ContractState where
  address : Address
  storage : Table Bytes Bytes
  balance : ℕ
  transfers : List (Address × ℕ)
  events : List String
  balance_lt : balance < 2 ^ 127

/-- Who calls, and at what block time. -/
structure CallEnv where
  caller : Address
  timestamp : ℕ
  deriving DecidableEq, Repr

/-- How a call ends without a result: by `abort`, or by a panic of the contract. -/
inductive Trap where
  | abort (msg : String)
  | panic
  deriving DecidableEq, Repr

/-- The result of an entry point with the state it leaves. -/
abbrev Outcome := Except Trap (ℤ × ContractState)

namespace ContractState

def new (address : Address) : ContractState := ⟨address, ∅, 0, [], [], by decide⟩

/-- `storage_read`: the host answers with the length of the value, and `0` is read as no value. -/
def storageRead (s : ContractState) (key : Bytes) : Option Bytes :=
  (s.storage.lookup key).filter fun v => !v.isEmpty

def storageWrite (s : ContractState) (key value : Bytes) : ContractState :=
  { s with storage := s.storage.insert key value }

/-- `self_balance`, cut to 64 bits by the host. -/
def selfBalance (s : ContractState) : ℕ := s.balance % 2 ^ 64

/-- The state after `amount` was sent. What a contract sends to itself stays with it. -/
def send (s : ContractState) (target : Address) (amount : ℕ) : ContractState :=
  { s with
    balance := if target = s.address then s.balance else s.balance - amount
    transfers := s.transfers ++ [(target, amount)]
    balance_lt := by
      have h := s.balance_lt
      split_ifs <;> omega }

/-- `transfer` of a `u64`. The amount reaches the host as an `i64`, whose sign it extends. -/
def transfer (s : ContractState) (target : Address) (amount : ℕ) : Bool × ContractState :=
  let sent := asU128 (Int64.ofNat amount)
  if s.balance < sent then (false, s) else (true, s.send target sent)

def emitEvent (s : ContractState) (data : String) : ContractState :=
  { s with events := s.events ++ [data] }

/-- Value that arrives from outside, as far as the account can hold it. -/
def deposit (s : ContractState) (amount : ℕ) : ContractState :=
  if h : s.balance + amount < 2 ^ 127 then
    { s with balance := s.balance + amount, balance_lt := h }
  else s

end ContractState

def ascii (text : String) : Bytes := text.toList.map fun c => UInt8.ofNat c.toNat

/-- `&args[lo..hi]`, which panics outside the arguments. -/
def slice (args : Bytes) (lo hi : ℕ) : Except Trap Bytes :=
  if lo ≤ hi ∧ hi ≤ args.length then .ok ((args.take hi).drop lo) else .error .panic

theorem slice_eq_ok_iff {args b : Bytes} {lo hi : ℕ} :
    slice args lo hi = .ok b ↔ (lo ≤ hi ∧ hi ≤ args.length) ∧ (args.take hi).drop lo = b := by
  unfold slice
  split_ifs with h
  · simp [h]
  · simp [h]

/-- `args_len`, the length of the arguments as an `i32`. -/
def argsLen (args : Bytes) : ℤ := wrapI 32 args.length

theorem argsLen_of_lt {args : Bytes} (h : args.length < 2 ^ 31) : argsLen args = args.length :=
  (wrapI_eq_iff (by decide)).mpr ⟨by omega, by omega⟩

theorem le_length_of_argsLen {args : Bytes} {k : ℕ} (h : ¬ argsLen args < k) : k ≤ args.length := by
  unfold argsLen wrapI Int.bmod at h
  dsimp only at h
  split_ifs at h <;> omega

/-! ### Numbers and addresses in storage -/

namespace ContractState

/-- `read_u64`: a value of another length is read as `0`. -/
def readU64 (s : ContractState) (key : Bytes) : ℕ :=
  ((s.storageRead key).bind fun v => if v.length = 8 then some (ofLeBytes v) else none).getD 0

def writeU64 (s : ContractState) (key : Bytes) (value : ℕ) : ContractState :=
  s.storageWrite key (leBytes 64 value)

def readU128 (s : ContractState) (key : Bytes) : ℕ :=
  ((s.storageRead key).bind fun v => if v.length = 16 then some (ofLeBytes v) else none).getD 0

def writeU128 (s : ContractState) (key : Bytes) (value : ℕ) : ContractState :=
  s.storageWrite key (leBytes 128 value)

def readBool (s : ContractState) (key : Bytes) : Bool :=
  ((s.storageRead key).map fun v => !v.isEmpty && v.getD 0 0 != 0).getD false

def writeBool (s : ContractState) (key : Bytes) (value : Bool) : ContractState :=
  s.storageWrite key [if value then 1 else 0]

def readAddress (s : ContractState) (key : Bytes) : Address :=
  ((s.storageRead key).bind fun v =>
    if v.length = 20 then some (addressOfBytes v) else none).getD Address.zero

/-! ### Laws of the accesses -/

variable (s : ContractState) (target : Address) (amount : ℕ) (key : Bytes)

@[simp] theorem storageRead_storageWrite_self {value : Bytes} (h : value ≠ []) :
    (s.storageWrite key value).storageRead key = some value := by
  unfold storageRead storageWrite
  rw [Finmap.lookup_insert]
  simp [Option.filter, h]

@[simp] theorem storageRead_storageWrite_of_ne {key k : Bytes} (h : k ≠ key) (value : Bytes) :
    (s.storageWrite key value).storageRead k = s.storageRead k := by
  unfold storageRead storageWrite
  rw [Finmap.lookup_insert_of_ne _ h]

@[simp] theorem storageRead_emitEvent (data : String) (key : Bytes) :
    (s.emitEvent data).storageRead key = s.storageRead key := rfl

@[simp] theorem storageRead_deposit : (s.deposit amount).storageRead key = s.storageRead key := by
  unfold deposit
  split_ifs <;> rfl

theorem reads_congr {s s' : ContractState} {key : Bytes}
    (h : s'.storageRead key = s.storageRead key) :
    s'.readU64 key = s.readU64 key ∧ s'.readU128 key = s.readU128 key ∧
      s'.readBool key = s.readBool key ∧ s'.readAddress key = s.readAddress key := by
  unfold readU64 readU128 readBool readAddress
  rw [h]
  exact ⟨rfl, rfl, rfl, rfl⟩

theorem leBytes_ne_nil {w : ℕ} (h : 8 ≤ w) (n : ℕ) : leBytes w n ≠ [] := by
  intro he
  have hl := length_leBytes w n
  rw [he, List.length_nil] at hl
  omega

section
variable {s : ContractState} {key : Bytes}

theorem readU64_of_storageRead {value : ℕ} (h : s.storageRead key = some (leBytes 64 value)) :
    s.readU64 key = value % 2 ^ 64 := by
  unfold readU64
  rw [h, Option.bind_some, if_pos (length_leBytes 64 value), Option.getD_some, ofLeBytes_leBytes,
    show 256 ^ (64 / 8) = 2 ^ 64 by decide]

theorem readU128_of_storageRead {value : ℕ} (h : s.storageRead key = some (leBytes 128 value)) :
    s.readU128 key = value % 2 ^ 128 := by
  unfold readU128
  rw [h, Option.bind_some, if_pos (length_leBytes 128 value), Option.getD_some, ofLeBytes_leBytes,
    show 256 ^ (128 / 8) = 2 ^ 128 by decide]

theorem readBool_of_storageRead {value : Bool}
    (h : s.storageRead key = some [if value then 1 else 0]) : s.readBool key = value := by
  unfold readBool
  rw [h]
  cases value <;> rfl

theorem addressOfBytes_asBytes (a : Address) : addressOfBytes a.asBytes = a := by
  refine Address.asBytes_injective (List.ext_getElem ?_ fun i h h' => ?_)
  · simp [Address.asBytes]
  · simp [addressOfBytes, Address.asBytes]

theorem readAddress_of_storageRead {a : Address} (h : s.storageRead key = some a.asBytes) :
    s.readAddress key = a := by
  unfold readAddress
  rw [h, Option.bind_some, if_pos a.length_asBytes, Option.getD_some, addressOfBytes_asBytes]

end

theorem asBytes_ne_nil (a : Address) : a.asBytes ≠ [] := by
  intro he
  have hl := a.length_asBytes
  rw [he] at hl
  cases hl

@[simp] theorem storageRead_writeU64_self (value : ℕ) :
    (s.writeU64 key value).storageRead key = some (leBytes 64 value) :=
  storageRead_storageWrite_self s key (leBytes_ne_nil (by decide) value)

@[simp] theorem storageRead_writeU128_self (value : ℕ) :
    (s.writeU128 key value).storageRead key = some (leBytes 128 value) :=
  storageRead_storageWrite_self s key (leBytes_ne_nil (by decide) value)

@[simp] theorem storageRead_writeBool_self (value : Bool) :
    (s.writeBool key value).storageRead key = some [if value then 1 else 0] :=
  storageRead_storageWrite_self s key (List.cons_ne_nil _ _)

theorem readU64_lt : s.readU64 key < 2 ^ 64 := by
  unfold readU64
  cases s.storageRead key with
  | none => exact Nat.two_pow_pos 64
  | some v =>
    rw [Option.bind_some]
    split_ifs with h
    · have hv := ofLeBytes_lt v
      rw [h] at hv
      exact hv
    · exact Nat.two_pow_pos 64

theorem readU128_lt : s.readU128 key < 2 ^ 128 := by
  unfold readU128
  cases s.storageRead key with
  | none => exact Nat.two_pow_pos 128
  | some v =>
    rw [Option.bind_some]
    split_ifs with h
    · have hv := ofLeBytes_lt v
      rw [h] at hv
      exact hv
    · exact Nat.two_pow_pos 128

/-! ### Transfers -/

/-- What the host makes of a `u64`. -/
theorem asU128_ofNat {amount : ℕ} (h : amount < 2 ^ 64) :
    asU128 (Int64.ofNat amount) =
      if amount < 2 ^ 63 then amount else 2 ^ 128 - 2 ^ 64 + amount := by
  have hmod : (Int64.ofNat amount).toInt = (amount : ℤ).bmod (2 ^ 64) := Int64.toInt_ofNat'
  unfold asU128
  rw [hmod, Int.bmod_def]
  split_ifs <;> omega

@[simp] theorem storageRead_transfer :
    (s.transfer target amount).2.storageRead key = s.storageRead key := by
  unfold transfer
  dsimp only
  split_ifs <;> rfl

theorem transfer_of_covered {s : ContractState} {amount : ℕ} (h : amount < 2 ^ 63)
    (hb : amount ≤ s.balance) (target : Address) :
    s.transfer target amount = (true, s.send target amount) := by
  have hsent : asU128 (Int64.ofNat amount) = amount := by
    rw [asU128_ofNat (by omega), if_pos h]
  unfold transfer
  rw [hsent]
  exact if_neg (by omega)

/-- Otherwise it does nothing: an amount from `2 ^ 63` on is negative as an `i64`, and as a `u128`
it is larger than any balance. -/
theorem transfer_of_not_covered {s : ContractState} {amount : ℕ} (h : amount < 2 ^ 64)
    (hn : ¬ (amount < 2 ^ 63 ∧ amount ≤ s.balance)) (target : Address) :
    s.transfer target amount = (false, s) := by
  have hlt := s.balance_lt
  have hsent : s.balance < asU128 (Int64.ofNat amount) := by
    rw [asU128_ofNat h]
    split_ifs <;> omega
  unfold transfer
  exact if_pos hsent

theorem transfer_mod_eq_iff (target : Address) :
    s.transfer target (amount % 2 ^ 64) = (true, s.send target amount) ↔
      amount < 2 ^ 63 ∧ amount ≤ s.balance := by
  constructor
  · intro h
    by_cases hc : amount % 2 ^ 64 < 2 ^ 63 ∧ amount % 2 ^ 64 ≤ s.balance
    · rw [transfer_of_covered hc.1 hc.2 target] at h
      have hsent : s.transfers ++ [(target, amount % 2 ^ 64)] = s.transfers ++ [(target, amount)] :=
        congrArg ContractState.transfers (Prod.mk.inj h).2
      have hmod : amount % 2 ^ 64 = amount :=
        (Prod.mk.inj (List.cons.inj (List.append_cancel_left hsent)).1).2
      omega
    · rw [transfer_of_not_covered (Nat.mod_lt _ (Nat.two_pow_pos 64)) hc target] at h
      cases h
  · rintro ⟨hlt, hle⟩
    rw [Nat.mod_eq_of_lt (by omega)]
    exact transfer_of_covered hlt hle target

theorem balance_transfer_mod_ge (target : Address) :
    s.balance - amount ≤ (s.transfer target (amount % 2 ^ 64)).2.balance := by
  by_cases hc : amount % 2 ^ 64 < 2 ^ 63 ∧ amount % 2 ^ 64 ≤ s.balance
  · have hmod : amount % 2 ^ 64 ≤ amount := Nat.mod_le _ _
    rw [transfer_of_covered hc.1 hc.2 target]
    simp only [send]
    split_ifs <;> omega
  · rw [transfer_of_not_covered (Nat.mod_lt _ (Nat.two_pow_pos 64)) hc target]
    exact Nat.sub_le _ _

end ContractState

/-- A state that differs from another at most in its events. -/
structure Quiet (s s' : ContractState) : Prop where
  address : s'.address = s.address
  storage : s'.storage = s.storage
  balance : s'.balance = s.balance
  transfers : s'.transfers = s.transfers

theorem Quiet.rfl {s : ContractState} : Quiet s s := ⟨Eq.refl _, Eq.refl _, Eq.refl _, Eq.refl _⟩

theorem quiet_emitEvent (s : ContractState) (data : String) : Quiet s (s.emitEvent data) :=
  ⟨rfl, rfl, rfl, rfl⟩

theorem Quiet.storageRead {s s' : ContractState} (h : Quiet s s') (key : Bytes) :
    s'.storageRead key = s.storageRead key := by
  unfold ContractState.storageRead
  rw [h.storage]

/-! ### Runs -/

/-- What happens to a contract: value arrives, or a function is called. -/
inductive Op (E : Type) where
  | deposit (amount : ℕ)
  | call (env : CallEnv) (entry : E)
  deriving DecidableEq, Repr

section
variable {E : Type} (call : CallEnv → ContractState → E → Outcome)

/-- The state after it. A call that traps leaves nothing. -/
def step (s : ContractState) : Op E → ContractState
  | .deposit amount => s.deposit amount
  | .call env e => ((call env s e).toOption.map Prod.snd).getD s

variable {call} {s s' : ContractState} {env : CallEnv} {e : E}

theorem step_of_ok {code : ℤ} (h : call env s e = .ok (code, s')) :
    step call s (.call env e) = s' := by
  simp only [step, h, Except.toOption, Option.map_some, Option.getD_some]

theorem step_of_error {t : Trap} (h : call env s e = .error t) : step call s (.call env e) = s := by
  simp only [step, h, Except.toOption, Option.map_none, Option.getD_none]

end

end Rustchain.Contracts
