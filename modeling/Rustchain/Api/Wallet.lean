import Rustchain.Consensus.Engine

/-! # The wallet routes

The five requests of `routes/wallet.rs` that make a transaction. A handler decrypts the key, reads
the fields of the request, takes the chain identifier from the engine and the nonce from the
database, and has the transaction signed and put into the pool. The storage of the application state
is the database of the engine, so the state of a handler is the engine.

The keystore and the texts of the errors of the `hex` crate are parameters. -/

namespace Rustchain.Consensus

def ConsensusError.display : ConsensusError → String
  | .invalidBlock m => s!"invalid block: {m}"
  | .wrongProposer expected got => s!"wrong proposer: expected {expected}, got {got}"
  | .stateTransition m => s!"state transition error: {m}"
  | .transactionPool m => s!"transaction pool error: {m}"
  | .finality m => s!"finality error: {m}"
  | .epoch m => s!"epoch error: {m}"
  | .notValidator => "not a validator"
  | .storage e => s!"storage error: {e.display}"
  | .core e => s!"core error: {e.display}"

end Rustchain.Consensus

namespace Rustchain.Api

open Rustchain.Core Storage Vm Consensus Lib.Checks

/-! ### Texts -/

def hexDigit (b : UInt8) : Option UInt8 :=
  if 48 ≤ b ∧ b ≤ 57 then some (b - 48)
  else if 65 ≤ b ∧ b ≤ 70 then some (b - 55)
  else if 97 ≤ b ∧ b ≤ 102 then some (b - 87)
  else none

def decodePairs : Bytes → Option Bytes
  | [] => some []
  | [_] => none
  | a :: b :: rest => do
    let high ← hexDigit a
    let low ← hexDigit b
    return (high * 16 + low) :: (← decodePairs rest)

/-- `hex::decode`, without the error. -/
def hexDecode (s : String) : Option Bytes := decodePairs s.toUTF8.data.toList

/-- The text without a leading `0x`. -/
def strip0x (s : String) : String :=
  match s.toList with
  | '0' :: 'x' :: rest => String.ofList rest
  | _ => s

/-- `str::parse::<u128>`: decimal digits after at most one plus sign, without overflow. -/
def parseU128 (s : String) : Option ℕ :=
  let digits := match s.toList with
    | '+' :: rest => rest
    | l => l
  if digits.isEmpty then none
  else digits.foldl (fun acc c => acc.bind fun n =>
    if c.isDigit ∧ n * 10 + (c.toNat - 48) < 2 ^ 128 then some (n * 10 + (c.toNat - 48)) else none)
    (some 0)

/-! ### Requests -/

/-- What the wallet takes from other crates: JSON values, the keystore and the error texts of `hex`.
-/
structure WalletCrates where
  Json : Type
  /-- `serde_json::to_vec`, with the text of its error. -/
  toVec : Json → Except String Bytes
  /-- `Keystore::decrypt`, with the text of its error. -/
  decrypt : Bytes → String → Except String KeyPair
  /-- The text of the error of `hex::decode` for an input that it refuses. -/
  hexError : String → String

/-- The errors that the wallet routes return. -/
inductive ApiError where
  | badRequest (msg : String)
  | internal (msg : String)
  deriving DecidableEq, Repr

structure WalletTransferRequest (C : WalletCrates) where
  keystore : C.Json
  password : String
  toAddr : String
  value : String
  gasLimit : Option ℕ
  gasPrice : Option ℕ

structure WalletStakeRequest (C : WalletCrates) where
  keystore : C.Json
  password : String
  value : String
  gasLimit : Option ℕ
  gasPrice : Option ℕ

structure WalletUnstakeRequest (C : WalletCrates) where
  keystore : C.Json
  password : String
  value : String
  gasLimit : Option ℕ
  gasPrice : Option ℕ

structure WalletDeployRequest (C : WalletCrates) where
  keystore : C.Json
  password : String
  bytecode : String
  gasLimit : Option ℕ
  gasPrice : Option ℕ

structure WalletCallRequest (C : WalletCrates) where
  keystore : C.Json
  password : String
  contract : String
  function : String
  args : Option String
  value : Option String
  gasLimit : Option ℕ
  gasPrice : Option ℕ

structure WalletTxResponse where
  txHash : String
  sender : String
  nonce : ℕ
  deriving DecidableEq, Repr

section
variable (C : WalletCrates)

def decryptKeystore (keystore : C.Json) (password : String) : Except ApiError KeyPair := do
  let bytes ← (C.toVec keystore).mapError fun e => .badRequest s!"Invalid keystore JSON: {e}"
  (C.decrypt bytes password).mapError fun e =>
    .badRequest s!"Keystore decryption failed (wrong password?): {e}"

/-- `hex::decode` with the text of its error. -/
def decodeHex (s : String) : Except String Bytes :=
  match hexDecode s with
  | some bytes => .ok bytes
  | none => .error (C.hexError s)

/-- `Address::from_hex`, with the text of its error. -/
def addressFromHex (s : String) : Except String Address := do
  let bytes ← (decodeHex C (strip0x s)).mapError fun e => s!"invalid hex: {e}"
  if h : bytes.length = 20 then return ⟨⟨⟨bytes⟩, h⟩⟩
  else throw s!"invalid key length: expected 20, got {bytes.length}"

def parseValue (s : String) : Except ApiError ℕ :=
  match parseU128 s with
  | some n => .ok n
  | none => .error (.badRequest "Invalid value")

/-! ### What a request asks for -/

/-- The fields of a transaction that come from the request. -/
structure Payload where
  toAddr : Option Address
  value : ℕ
  txType : TxType
  gasLimit : ℕ
  gasPrice : ℕ
  data : Bytes

/-- Call data: the length of the name in four bytes, the name, the arguments. -/
def encodeCall (function : String) (args : Bytes) : Bytes :=
  leBytes 32 function.toUTF8.data.toList.length ++ function.toUTF8.data.toList ++ args

/-- The arguments of a call; without a text there are none. -/
def callArgs (args : Option String) : Except ApiError Bytes :=
  let argsHex := strip0x (args.getD "")
  if argsHex.isEmpty then return []
  else (decodeHex C argsHex).mapError fun e => .badRequest s!"Invalid hex args: {e}"

def readTransfer (req : WalletTransferRequest C) : Except ApiError (KeyPair × Payload) := do
  let keypair ← decryptKeystore C req.keystore req.password
  let toAddr ← (addressFromHex C req.toAddr).mapError fun e =>
    .badRequest s!"Invalid to address: {e}"
  let value ← parseValue req.value
  return (keypair,
    ⟨some toAddr, value, .transfer, req.gasLimit.getD 21000, req.gasPrice.getD 1, []⟩)

/-- A stake and an unstake differ in their type only. -/
def readStaking (txType : TxType) (keystore : C.Json) (password value : String)
    (gasLimit gasPrice : Option ℕ) : Except ApiError (KeyPair × Payload) := do
  let keypair ← decryptKeystore C keystore password
  let value ← parseValue value
  return (keypair, ⟨none, value, txType, gasLimit.getD 50000, gasPrice.getD 1, []⟩)

def readStake (req : WalletStakeRequest C) : Except ApiError (KeyPair × Payload) :=
  readStaking C .stake req.keystore req.password req.value req.gasLimit req.gasPrice

def readUnstake (req : WalletUnstakeRequest C) : Except ApiError (KeyPair × Payload) :=
  readStaking C .unstake req.keystore req.password req.value req.gasLimit req.gasPrice

def readDeploy (req : WalletDeployRequest C) : Except ApiError (KeyPair × Payload) := do
  let keypair ← decryptKeystore C req.keystore req.password
  let bytecode ← (decodeHex C (strip0x req.bytecode)).mapError fun e =>
    .badRequest s!"Invalid hex bytecode: {e}"
  if bytecode.isEmpty then throw (.badRequest "Bytecode cannot be empty")
  return (keypair, ⟨none, 0, .contractDeploy, req.gasLimit.getD 1000000, req.gasPrice.getD 1,
    bytecode⟩)

def readCall (req : WalletCallRequest C) : Except ApiError (KeyPair × Payload) := do
  let keypair ← decryptKeystore C req.keystore req.password
  let contract ← (addressFromHex C req.contract).mapError fun e =>
    .badRequest s!"Invalid contract address: {e}"
  let value ← parseValue (req.value.getD "0")
  let args ← callArgs C req.args
  return (keypair, ⟨some contract, value, .contractCall, req.gasLimit.getD 500000,
    req.gasPrice.getD 1, encodeCall req.function args⟩)

end

/-! ### Submission -/

/-- The readings of the clock: for the transaction and for the pool. -/
structure Clocks where
  timestamp : ℕ
  addedAt : ℕ

section
variable {P : Primitives} {W : Wasmtime} {σ : Type} [Backend σ]

/-- `get_nonce`: the nonce of the account in the database. -/
def getNonce (addr : Address) (e : ConsensusEngine P W σ) :
    Except ApiError ℕ × ConsensusEngine P W σ :=
  let r := getAccount addr e.chainState.storage
  let e := { e with chainState := { e.chainState with storage := r.2 } }
  match r.1 with
  | .error err => (.error (.internal s!"Storage error: {err.display}"), e)
  | .ok none => (.ok 0, e)
  | .ok (some account) => (.ok account.nonce, e)

/-- **`sign_and_submit`.** -/
def signAndSubmit (keypair : KeyPair) (tx : Transaction) (now : ℕ) (e : ConsensusEngine P W σ) :
    Except ApiError WalletTxResponse × ConsensusEngine P W σ :=
  let signed := SignedTransaction.new P tx keypair
  match signed.verify P with
  | .error err => (.error (.badRequest s!"Transaction verification failed: {err.display}"), e)
  | .ok _ =>
    let r := e.onTransactionReceived signed now
    match r.result with
    | .error err => (.error (.internal s!"Consensus error: {err.display}"), r.engine)
    | .ok _ => (.ok ⟨signed.txHash.display, signed.transaction.sender.toHex,
        signed.transaction.nonce⟩, r.engine)

def Payload.transaction (p : Payload) (chainId nonce : ℕ) (sender : Address) (timestamp : ℕ) :
    Transaction :=
  ⟨chainId, nonce, sender, p.toAddr, p.value, p.txType, p.gasLimit, p.gasPrice, p.data, timestamp⟩

/-- What the handlers do once the request is read. -/
def submit (t : Clocks) (e : ConsensusEngine P W σ) :
    Except ApiError (KeyPair × Payload) →
      Except ApiError WalletTxResponse × ConsensusEngine P W σ
  | .error err => (.error err, e)
  | .ok (keypair, p) =>
    match getNonce (keypair.address P) e with
    | (.error err, e) => (.error err, e)
    | (.ok nonce, e) =>
      signAndSubmit keypair (p.transaction e.config.chainId nonce (keypair.address P) t.timestamp)
        t.addedAt e

section
variable {C : WalletCrates}

def sendTransfer (req : WalletTransferRequest C) (t : Clocks) (e : ConsensusEngine P W σ) :=
  submit t e (readTransfer C req)

def sendStake (req : WalletStakeRequest C) (t : Clocks) (e : ConsensusEngine P W σ) :=
  submit t e (readStake C req)

def sendUnstake (req : WalletUnstakeRequest C) (t : Clocks) (e : ConsensusEngine P W σ) :=
  submit t e (readUnstake C req)

def deployContract (req : WalletDeployRequest C) (t : Clocks) (e : ConsensusEngine P W σ) :=
  submit t e (readDeploy C req)

def callContract (req : WalletCallRequest C) (t : Clocks) (e : ConsensusEngine P W σ) :=
  submit t e (readCall C req)

end

end

/-- A request that makes a transaction. -/
inductive WalletRequest (C : WalletCrates) where
  | transfer (req : WalletTransferRequest C)
  | stake (req : WalletStakeRequest C)
  | unstake (req : WalletUnstakeRequest C)
  | deploy (req : WalletDeployRequest C)
  | call (req : WalletCallRequest C)

namespace WalletRequest

variable {C : WalletCrates}

def read : WalletRequest C → Except ApiError (KeyPair × Payload)
  | .transfer req => readTransfer C req
  | .stake req => readStake C req
  | .unstake req => readUnstake C req
  | .deploy req => readDeploy C req
  | .call req => readCall C req

section
variable {P : Primitives} {W : Wasmtime} {σ : Type} [Backend σ]

def handle (t : Clocks) (e : ConsensusEngine P W σ) :
    WalletRequest C → Except ApiError WalletTxResponse × ConsensusEngine P W σ
  | .transfer req => sendTransfer req t e
  | .stake req => sendStake req t e
  | .unstake req => sendUnstake req t e
  | .deploy req => deployContract req t e
  | .call req => callContract req t e

theorem handle_eq_submit (req : WalletRequest C) (t : Clocks) (e : ConsensusEngine P W σ) :
    req.handle t e = submit t e req.read := by
  cases req <;> rfl

end

end WalletRequest

end Rustchain.Api
