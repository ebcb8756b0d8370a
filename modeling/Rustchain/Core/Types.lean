import Rustchain.Lib.Machine

/-! # Core types

The data of `rustchain_crypto` and `rustchain_core`: byte strings of fixed length, accounts,
transactions, receipts, blocks, validators and epochs, and the operations on them that need no
cryptography. Integers are natural numbers; where the code does arithmetic on them it goes through
`Lib.Machine` at the width of the source type (`Balance` is `u128`, all other counters are `u64`
unless said otherwise). -/

namespace Rustchain.Core

open Lib.Machine

abbrev Bytes := List UInt8

/-! ### Fixed-length byte strings -/

def hexByte (b : UInt8) : List Char :=
  [Nat.digitChar (b.toNat / 16), Nat.digitChar (b.toNat % 16)]

/-- `hex::encode`. -/
def hexEncode (l : Bytes) : String := String.ofList (l.flatMap hexByte)

/-- A 20-byte address. -/
structure Address where
  bytes : Vector UInt8 20
  deriving DecidableEq, Repr

/-- A 32-byte Blake3 hash. -/
structure Blake3Hash where
  bytes : Vector UInt8 32
  deriving DecidableEq, Repr

/-- An Ed25519 public key. -/
structure PublicKey where
  bytes : Vector UInt8 32
  deriving DecidableEq, Repr

/-- An Ed25519 signature. -/
structure Signature where
  bytes : Vector UInt8 64
  deriving DecidableEq, Repr

/-- The secret key inside a `KeyPair`. -/
structure SecretKey where
  bytes : Vector UInt8 32
  deriving DecidableEq, Repr

namespace Address

def zero : Address := ⟨Vector.replicate 20 0⟩

def asBytes (a : Address) : Bytes := a.bytes.toList

def toHex (a : Address) : String := "0x" ++ hexEncode a.asBytes

theorem length_asBytes (a : Address) : a.asBytes.length = 20 := by simp [asBytes]

theorem asBytes_injective {a b : Address} (h : a.asBytes = b.asBytes) : a = b := by
  obtain ⟨a⟩ := a
  obtain ⟨b⟩ := b
  exact congrArg _ (Vector.toList_inj.mp h)

end Address

namespace Blake3Hash

def zero : Blake3Hash := ⟨Vector.replicate 32 0⟩

def asBytes (h : Blake3Hash) : Bytes := h.bytes.toList

def toHex (h : Blake3Hash) : String := hexEncode h.asBytes

/-- The `Display` of a hash. -/
def display (h : Blake3Hash) : String := "0x" ++ h.toHex

theorem length_asBytes (h : Blake3Hash) : h.asBytes.length = 32 := by simp [asBytes]

theorem asBytes_injective {a b : Blake3Hash} (h : a.asBytes = b.asBytes) : a = b := by
  obtain ⟨a⟩ := a
  obtain ⟨b⟩ := b
  exact congrArg _ (Vector.toList_inj.mp h)

end Blake3Hash

def Signature.default : Signature := ⟨Vector.replicate 64 0⟩

/-! ### Integers -/

/-- The `w / 8` bytes of `n` in little-endian order, `to_le_bytes`. -/
def leBytes (w : ℕ) (n : ℕ) : Bytes :=
  (List.range (w / 8)).map fun i => UInt8.ofNat (n / 256 ^ i % 256)

theorem length_leBytes (w n : ℕ) : (leBytes w n).length = w / 8 := by simp [leBytes]

/-- The number with the given little-endian bytes, `from_le_bytes`. -/
def ofLeBytes : Bytes → ℕ
  | [] => 0
  | b :: l => b.toNat + 256 * ofLeBytes l

theorem ofLeBytes_lt (l : Bytes) : ofLeBytes l < 256 ^ l.length := by
  induction l with
  | nil => exact Nat.one_pos
  | cons b l ih =>
    have hb := b.toNat_lt
    rw [ofLeBytes, List.length_cons, Nat.pow_succ]
    omega

theorem ofLeBytes_leBytes (w n : ℕ) : ofLeBytes (leBytes w n) = n % 256 ^ (w / 8) := by
  unfold leBytes
  generalize w / 8 = k
  induction k generalizing n with
  | zero => rw [Nat.pow_zero, Nat.mod_one]; rfl
  | succ k ih =>
    have hstep : (fun i => UInt8.ofNat (n / 256 ^ i % 256)) ∘ Nat.succ =
        fun i => UInt8.ofNat (n / 256 / 256 ^ i % 256) := by
      funext i
      show UInt8.ofNat (n / 256 ^ (i + 1) % 256) = _
      rw [Nat.pow_succ', Nat.div_div_eq_div_mul]
    have hbyte : (UInt8.ofNat (n / 256 ^ 0 % 256)).toNat = n % 256 := by simp
    rw [List.range_succ_eq_map, List.map_cons, List.map_map, hstep, ofLeBytes, ih, hbyte,
      Nat.pow_succ', Nat.mod_mul]

theorem ofLeBytes_inj {l l' : Bytes} (hlen : l.length = l'.length)
    (h : ofLeBytes l = ofLeBytes l') : l = l' := by
  induction l generalizing l' with
  | nil => exact (List.length_eq_zero_iff.mp hlen.symm).symm
  | cons b l ih =>
    cases l' with
    | nil => cases hlen
    | cons b' l' =>
      have hb := b.toNat_lt
      have hb' := b'.toNat_lt
      rw [ofLeBytes, ofLeBytes] at h
      rw [ih (Nat.succ.inj hlen) (by omega), UInt8.toNat_inj.mp (show b.toNat = b'.toNat by omega)]

theorem leBytes_ofLeBytes {w : ℕ} {l : Bytes} (h : l.length = w / 8) :
    leBytes w (ofLeBytes l) = l := by
  refine ofLeBytes_inj ((length_leBytes w _).trans h.symm) ?_
  rw [ofLeBytes_leBytes, Nat.mod_eq_of_lt (h ▸ ofLeBytes_lt l)]

theorem leBytes_inj {w n m : ℕ} (h : leBytes w n = leBytes w m) :
    n % 256 ^ (w / 8) = m % 256 ^ (w / 8) := by
  have hdigit : ∀ i < w / 8, n / 256 ^ i % 256 = m / 256 ^ i % 256 := by
    intro i hi
    have hbyte := congrArg (fun l : Bytes => l[i]?) h
    simp only [leBytes, List.getElem?_map, List.getElem?_range hi, Option.map_some,
      Option.some.injEq] at hbyte
    have hnat := congrArg UInt8.toNat hbyte
    simpa using hnat
  generalize w / 8 = k at hdigit ⊢
  induction k with
  | zero => rw [pow_zero, Nat.mod_one, Nat.mod_one]
  | succ k ih =>
    rw [Nat.mod_pow_succ, Nat.mod_pow_succ, ih fun i hi => hdigit i (by omega),
      hdigit k (Nat.lt_succ_self k)]

def maxExtraDataSize : ℕ := 256
def maxTransactionDataSize : ℕ := 512 * 1024
def maxBlockTransactions : ℕ := 10000
def protocolVersion : ℕ := 1

/-! ### Errors -/

/-- The errors of `rustchain_crypto` that signature checks return. -/
inductive CryptoError where
  | invalidSignature
  deriving DecidableEq, Repr

def CryptoError.display : CryptoError → String
  | .invalidSignature => "invalid signature"

/-- The errors of `rustchain_core` that validation returns. -/
inductive CoreError where
  | invalidBlock (msg : String)
  | invalidTransaction (msg : String)
  | invalidSignature (e : CryptoError)
  | gasLimitExceeded (limit used : ℕ)
  | dataTooLarge (max got : ℕ)
  | genesis (msg : String)
  deriving DecidableEq, Repr

def CoreError.display : CoreError → String
  | .invalidBlock m => s!"invalid block: {m}"
  | .invalidTransaction m => s!"invalid transaction: {m}"
  | .invalidSignature e => s!"invalid signature: {e.display}"
  | .gasLimitExceeded limit used => s!"gas limit exceeded: limit {limit}, used {used}"
  | .dataTooLarge max got => s!"data too large: max {max}, got {got}"
  | .genesis m => s!"genesis error: {m}"

/-! ### Accounts -/

structure Account where
  address : Address
  balance : ℕ
  nonce : ℕ
  codeHash : Option Blake3Hash
  storageRoot : Blake3Hash
  deriving DecidableEq, Repr

namespace Account

def new (address : Address) (balance : ℕ) : Account :=
  ⟨address, balance, 0, none, Blake3Hash.zero⟩

def newContract (address : Address) (balance : ℕ) (codeHash : Blake3Hash) : Account :=
  ⟨address, balance, 0, some codeHash, Blake3Hash.zero⟩

def hasSufficientBalance (a : Account) (amount : ℕ) : Bool := decide (amount ≤ a.balance)

def incrementNonce (a : Account) : Flagged Account := do
  let n ← addU 64 a.nonce 1
  return { a with nonce := n }

/-- `balance -= amount`. -/
def debit (a : Account) (amount : ℕ) : Flagged Account := do
  let b ← subU 128 a.balance amount
  return { a with balance := b }

/-- `balance += amount`. -/
def credit (a : Account) (amount : ℕ) : Flagged Account := do
  let b ← addU 128 a.balance amount
  return { a with balance := b }

theorem debit_balance {a : Account} {x : ℕ} (h : (a.debit x).ovf = false) :
    (a.debit x).val.balance = a.balance - x ∧ x ≤ a.balance :=
  subU_val (by simpa [debit] using h)

theorem credit_balance {a : Account} {x : ℕ} (h : (a.credit x).ovf = false) :
    (a.credit x).val.balance = a.balance + x :=
  addU_val (by simpa [credit] using h)

theorem debit_ovf {a : Account} {x : ℕ} : (a.debit x).ovf = false ↔ x ≤ a.balance := by
  unfold debit
  rw [ovf_bind, ovf_pure, Bool.or_false, subU_ovf]

theorem credit_ovf {a : Account} {x : ℕ} : (a.credit x).ovf = false ↔ a.balance + x < 2 ^ 128 := by
  unfold credit
  rw [ovf_bind, ovf_pure, Bool.or_false, addU_ovf]

end Account

/-! ### Transactions -/

inductive TxType where
  | transfer
  | contractDeploy
  | contractCall
  | stake
  | unstake
  deriving DecidableEq, Repr

structure Transaction where
  chainId : ℕ
  nonce : ℕ
  sender : Address
  toAddr : Option Address
  value : ℕ
  txType : TxType
  gasLimit : ℕ
  gasPrice : ℕ
  data : Bytes
  timestamp : ℕ
  deriving DecidableEq, Repr

structure SignedTransaction where
  transaction : Transaction
  publicKey : PublicKey
  signature : Signature
  txHash : Blake3Hash
  deriving DecidableEq, Repr

namespace Transaction

/-- The checks that depend on the type of the transaction. -/
def validateType (t : Transaction) : Except CoreError Unit :=
  match t.txType with
  | .transfer =>
    if t.toAddr.isNone then throw (.invalidTransaction "transfer must have a recipient")
    else pure ()
  | .contractDeploy =>
    if t.toAddr.isSome then
      throw (.invalidTransaction "contract deploy must not have a recipient")
    else if t.data.isEmpty then
      throw (.invalidTransaction "contract deploy must include bytecode")
    else pure ()
  | .contractCall =>
    if t.toAddr.isNone then throw (.invalidTransaction "contract call must have a target address")
    else pure ()
  | .stake =>
    if t.value = 0 then throw (.invalidTransaction "stake amount must be > 0") else pure ()
  | .unstake =>
    if t.value = 0 then throw (.invalidTransaction "unstake amount must be > 0") else pure ()

def validateBasic (t : Transaction) : Except CoreError Unit := do
  if t.data.length > maxTransactionDataSize then
    throw (.dataTooLarge maxTransactionDataSize t.data.length)
  if t.gasLimit = 0 then throw (.invalidTransaction "gas limit must be > 0")
  if t.gasPrice = 0 then throw (.invalidTransaction "gas price must be > 0")
  t.validateType

def maxGasCost (t : Transaction) : Flagged ℕ := mulU 128 t.gasLimit t.gasPrice

def totalCost (t : Transaction) : Flagged ℕ := do
  let g ← t.maxGasCost
  addU 128 t.value g

end Transaction

namespace SignedTransaction

/-- `SignedTransaction::hash`: the stored hash. -/
def hash (t : SignedTransaction) : Blake3Hash := t.txHash

def sender (t : SignedTransaction) : Address := t.transaction.sender

end SignedTransaction

/-! ### Receipts -/

inductive TxStatus where
  | success
  | failure (msg : String)
  | outOfGas
  deriving DecidableEq, Repr

structure EventLog where
  address : Address
  topics : List Blake3Hash
  data : Bytes
  deriving DecidableEq, Repr

structure TransactionReceipt where
  txHash : Blake3Hash
  blockNumber : ℕ
  blockHash : Blake3Hash
  index : ℕ
  status : TxStatus
  gasUsed : ℕ
  logs : List EventLog
  contractAddress : Option Address
  returnData : Bytes
  deriving DecidableEq, Repr

/-! ### Blocks -/

structure BlockHeader where
  version : ℕ
  chainId : ℕ
  number : ℕ
  timestamp : ℕ
  parentHash : Blake3Hash
  stateRoot : Blake3Hash
  transactionsRoot : Blake3Hash
  receiptsRoot : Blake3Hash
  validator : Address
  validatorPubkey : PublicKey
  validatorSignature : Signature
  epoch : ℕ
  gasUsed : ℕ
  gasLimit : ℕ
  extraData : Bytes
  deriving DecidableEq, Repr

structure Block where
  header : BlockHeader
  transactions : List SignedTransaction
  deriving DecidableEq, Repr

end Rustchain.Core
