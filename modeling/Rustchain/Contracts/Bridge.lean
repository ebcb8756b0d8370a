import Rustchain.Contracts.Sdk
import Rustchain.Contracts.Sha256
import Rustchain.Lib.Keys

/-! # The bridge contract

The entry points of `contracts/bridge` on the SDK, with their storage keys, the record of an HTLC
and the parsing of their arguments. Offsets are computed in the 32 bits of a `usize` of the target.
What a call that returns has done is said once (`Effect`); the laws of the contract are proved from
it. -/

namespace Rustchain.Contracts.Bridge

open Rustchain.Core Lib.Machine Lib.Maps Lib.Keys Lib.Checks
open Vm (addressOfBytes)

/-! ### Keys -/

/-- What the keys of the contract begin with. -/
inductive Word where
  | owner
  | paused
  | htlcCount
  | validatorCount
  | minSignatures
  | feeBps
  | htlc
  | locked
  | wrapped
  | wrappedSupply
  | validator
  deriving DecidableEq

namespace Word

def text : Word → String
  | owner => "owner"
  | paused => "paused"
  | htlcCount => "htlc_count"
  | validatorCount => "validator_count"
  | minSignatures => "min_signatures"
  | feeBps => "fee_bps"
  | htlc => "htlc:"
  | locked => "locked:"
  | wrapped => "wrapped:"
  | wrappedSupply => "wrapped_supply:"
  | validator => "validator:"

def all : List Word :=
  [owner, paused, htlcCount, validatorCount, minSignatures, feeBps, htlc, locked, wrapped,
    wrappedSupply, validator]

theorem mem_all (w : Word) : w ∈ all := by
  cases w <;> decide

end Word

def words : Words Word UInt8 where
  word w := ascii w.text
  prefixFree := by
    have h : ∀ v ∈ Word.all, ∀ w ∈ Word.all, v ≠ w → ¬ ascii v.text <+: ascii w.text := by
      decide +kernel
    exact fun v w => h v (Word.mem_all v) w (Word.mem_all w)

def ownerKey : Bytes := words.key .owner []
def pausedKey : Bytes := words.key .paused []
def htlcCountKey : Bytes := words.key .htlcCount []
def validatorCountKey : Bytes := words.key .validatorCount []
def minSignaturesKey : Bytes := words.key .minSignatures []
def feeBpsKey : Bytes := words.key .feeBps []

def colon : UInt8 := 58

def htlcKey (hashLockHex : Bytes) : Bytes := words.key .htlc hashLockHex

def lockedKey (chain token : Bytes) : Bytes := words.key .locked (chain ++ colon :: token)

def wrappedBalanceKey (chain token : Bytes) (addr : Address) : Bytes :=
  words.key .wrapped ((chain ++ colon :: token) ++ colon :: addr.asBytes)

def wrappedSupplyKey (chain token : Bytes) : Bytes :=
  words.key .wrappedSupply (chain ++ colon :: token)

def validatorKey (addr : Address) : Bytes := words.key .validator addr.asBytes

/-! ### Hexadecimal -/

def hexChars : Bytes := ascii "0123456789abcdef"

def hexPair (b : UInt8) : Bytes :=
  [hexChars.getD (b >>> 4).toNat 0, hexChars.getD (b &&& 0x0f).toNat 0]

def hexEncode32 (bytes : Bytes) : Bytes := bytes.flatMap hexPair

theorem hexPair_injective : Function.Injective hexPair := by
  -- A digit stands `48` or `87` above its value, so the pair can be read back.
  have hread : ∀ i : Fin 256, (hexPair (UInt8.ofNat i.val)).map
      (fun c => if c < 58 then c - 48 else c - 87) =
        [UInt8.ofNat i.val >>> 4, UInt8.ofNat i.val &&& 0x0f] ∧
      (UInt8.ofNat i.val >>> 4) * 16 + (UInt8.ofNat i.val &&& 0x0f) = UInt8.ofNat i.val := by
    decide +kernel
  intro a b h
  obtain ⟨ha, ha'⟩ := hread ⟨a.toNat, a.toNat_lt⟩
  obtain ⟨hb, hb'⟩ := hread ⟨b.toNat, b.toNat_lt⟩
  simp only [UInt8.ofNat_toNat] at ha ha' hb hb'
  rw [h, hb] at ha
  obtain ⟨h1, h2⟩ := List.cons.inj ha
  rw [← ha', ← hb', h1, (List.cons.inj h2).1]

theorem hexEncode32_injective : Function.Injective hexEncode32 := by
  intro l
  induction l with
  | nil =>
    intro m h
    cases m with
    | nil => rfl
    | cons b m => exact absurd (congrArg List.length h) (by simp [hexEncode32, hexPair])
  | cons a l ih =>
    intro m h
    cases m with
    | nil => exact absurd (congrArg List.length h) (by simp [hexEncode32, hexPair])
    | cons b m =>
      rw [hexEncode32, hexEncode32, List.flatMap_cons, List.flatMap_cons] at h
      obtain ⟨hab, hlm⟩ := List.append_inj h rfl
      rw [hexPair_injective hab, ih hlm]

/-! ### The record of an HTLC -/

/-- `HtlcData`. The status is `0` for active, `1` for claimed and `2` for refunded. -/
structure HtlcData where
  sender : Address
  recipient : Address
  amount : ℕ
  timelock : ℕ
  status : UInt8
  deriving DecidableEq, Repr

def encodeHtlc (sender recipient : Address) (amount timelock : ℕ) (status : UInt8) : Bytes :=
  sender.asBytes ++ (recipient.asBytes ++ (leBytes 128 amount ++ (leBytes 64 timelock ++ [status])))

def decodeHtlc (data : Bytes) : Option HtlcData :=
  if data.length < 65 then none
  else some {
    sender := addressOfBytes (data.take 20)
    recipient := addressOfBytes ((data.drop 20).take 20)
    amount := ofLeBytes ((data.drop 40).take 16)
    timelock := ofLeBytes ((data.drop 56).take 8)
    status := data.getD 64 0 }

variable (sender recipient : Address) (amount timelock : ℕ) (status : UInt8)

theorem length_encodeHtlc : (encodeHtlc sender recipient amount timelock status).length = 65 := by
  simp [encodeHtlc, Address.length_asBytes, length_leBytes]

theorem encodeHtlc_ne_nil : encodeHtlc sender recipient amount timelock status ≠ [] := by
  intro h
  have hl := length_encodeHtlc sender recipient amount timelock status
  rw [h] at hl
  cases hl

theorem decodeHtlc_encodeHtlc :
    decodeHtlc (encodeHtlc sender recipient amount timelock status) =
      some ⟨sender, recipient, amount % 2 ^ 128, timelock % 2 ^ 64, status⟩ := by
  have hs := sender.length_asBytes
  have hr := recipient.length_asBytes
  have ha : (leBytes 128 amount).length = 16 := length_leBytes 128 amount
  have ht : (leBytes 64 timelock).length = 8 := length_leBytes 64 timelock
  -- Every field starts where the parts before it end.
  have h40 : sender.asBytes.drop 40 = [] := List.drop_eq_nil_of_le (by omega)
  have h56 : sender.asBytes.drop 56 = [] := List.drop_eq_nil_of_le (by omega)
  have h36 : recipient.asBytes.drop 36 = [] := List.drop_eq_nil_of_le (by omega)
  unfold decodeHtlc
  rw [if_neg (by rw [length_encodeHtlc]; decide)]
  simp [encodeHtlc, List.drop_append, hs, hr, ha, ht, h40, h56, h36,
    ContractState.addressOfBytes_asBytes, ofLeBytes_leBytes]

/-! ### Guards and arguments -/

def requireOwner (env : CallEnv) (s : ContractState) : Except Trap Unit :=
  if env.caller ≠ s.readAddress ownerKey then
    throw (.abort "Only owner can call this function")
  else pure ()

def requireNotPaused (s : ContractState) : Except Trap Unit :=
  if s.readBool pausedKey = true then throw (.abort "Bridge is paused") else pure ()

/-- A sum of offsets, in the 32 bits of a `usize`. -/
def usize (n : ℕ) : ℕ := n % 2 ^ 32

/-- The chain and the token at the start of the arguments of `bridge_mint` and `bridge_burn`, and
the offset of what follows. -/
def parseChainToken (args : Bytes) : Except Trap (Bytes × Bytes × ℕ) := do
  let chainLen := ofLeBytes (← slice args 0 4)
  let chain ← slice args 4 (usize (4 + chainLen))
  let offset := usize (4 + chainLen)
  let tokenLen := ofLeBytes (← slice args offset (usize (offset + 4)))
  let token ← slice args (usize (offset + 4)) (usize (offset + 4 + tokenLen))
  return (chain, token, usize (offset + 4 + tokenLen))

/-- The arguments of `bridge_mint`: chain, token, recipient and amount. -/
def parseMint (args : Bytes) : Except Trap (Bytes × Bytes × Address × ℕ) := do
  let (chain, token, offset) ← parseChainToken args
  let recipient := addressOfBytes (← slice args offset (usize (offset + 20)))
  let amount := ofLeBytes (← slice args (usize (offset + 20)) (usize (offset + 36)))
  return (chain, token, recipient, amount)

/-- The arguments of `bridge_burn` that it reads: chain, token and amount. -/
def parseBurn (args : Bytes) : Except Trap (Bytes × Bytes × ℕ) := do
  let (chain, token, offset) ← parseChainToken args
  let amount := ofLeBytes (← slice args offset (usize (offset + 16)))
  return (chain, token, amount)

/-! ### Entry points -/

def init (env : CallEnv) (s : ContractState) : ContractState :=
  let s := s.storageWrite ownerKey env.caller.asBytes
  let s := s.writeBool pausedKey false
  let s := s.writeU64 htlcCountKey 0
  let s := s.writeU64 validatorCountKey 0
  let s := s.writeU64 minSignaturesKey 2
  let s := s.writeU64 feeBpsKey 10
  s.emitEvent "BridgeInitialized"

def storeHtlc (s : ContractState) (key data : Bytes) : ContractState :=
  let s := s.storageWrite key data
  let s := s.writeU64 htlcCountKey (addU 64 (s.readU64 htlcCountKey) 1).val
  s.emitEvent "HTLCCreated"

/-- `create_htlc`. The amount is the whole balance of the contract. -/
def createHtlc (env : CallEnv) (args : Bytes) (s : ContractState) : Outcome := do
  requireNotPaused s
  if argsLen args < 60 then
    return (-1, s.emitEvent "HTLCFailed:InvalidArgs")
  else
    let hashLock ← slice args 0 32
    let recipient := addressOfBytes (← slice args 32 52)
    let timelock := ofLeBytes (← slice args 52 60)
    let amount := s.selfBalance
    if amount = 0 then
      return (-1, s.emitEvent "HTLCFailed:ZeroAmount")
    else
      let key := htlcKey (hexEncode32 hashLock)
      if (s.storageRead key).isSome then
        return (-1, s.emitEvent "HTLCFailed:AlreadyExists")
      else
        return (0, storeHtlc s key (encodeHtlc env.caller recipient amount timelock 0))

/-- A way to settle an HTLC: who may do it and receives the amount, at what times it is refused,
the status it leaves, and its events. -/
structure Settlement where
  party : HtlcData → Address
  wrongParty : String
  refuses : HtlcData → ℕ → Bool
  wrongTime : String
  status : UInt8
  settled : String

/-- The recipient, before the timelock. -/
def claim : Settlement where
  party htlc := htlc.recipient
  wrongParty := "HTLCFailed:NotRecipient"
  refuses htlc now := decide (htlc.timelock ≤ now)
  wrongTime := "HTLCFailed:Expired"
  status := 1
  settled := "HTLCClaimed"

/-- The sender, from the timelock on. -/
def refund : Settlement where
  party htlc := htlc.sender
  wrongParty := "HTLCFailed:NotSender"
  refuses htlc now := decide (now < htlc.timelock)
  wrongTime := "HTLCFailed:NotExpired"
  status := 2
  settled := "HTLCRefunded"

/-- The state after an HTLC was settled. The result of the transfer is not looked at. -/
def settleHtlc (k : Settlement) (s : ContractState) (key : Bytes) (htlc : HtlcData) :
    ContractState :=
  let s := (s.transfer (k.party htlc) (htlc.amount % 2 ^ 64)).2
  let s := s.storageWrite key
    (encodeHtlc htlc.sender htlc.recipient htlc.amount htlc.timelock k.status)
  s.emitEvent k.settled

/-- The checks of `claim_htlc` and `refund_htlc`, and the settlement. -/
def trySettle (k : Settlement) (env : CallEnv) (key : Bytes) (s : ContractState) :
    ℤ × ContractState :=
  match s.storageRead key with
  | none => (-1, s.emitEvent "HTLCFailed:NotFound")
  | some data =>
    match decodeHtlc data with
    | none => (-1, s)
    | some htlc =>
      if htlc.status ≠ 0 then (-1, s.emitEvent "HTLCFailed:NotActive")
      else if env.caller ≠ k.party htlc then (-1, s.emitEvent k.wrongParty)
      else if k.refuses htlc env.timestamp = true then (-1, s.emitEvent k.wrongTime)
      else (0, settleHtlc k s key htlc)

def claimHtlc (env : CallEnv) (args : Bytes) (s : ContractState) : Outcome :=
  if argsLen args < 1 then return (-1, s)
  else return trySettle claim env (htlcKey (hexEncode32 (simpleSha256 args))) s

def refundHtlc (env : CallEnv) (args : Bytes) (s : ContractState) : Outcome :=
  if argsLen args < 32 then return (-1, s)
  else do
    let hashLock ← slice args 0 32
    return trySettle refund env (htlcKey (hexEncode32 hashLock)) s

/-- What `bridge_lock` locks: the whole balance without the fee. -/
def netAmount (s : ContractState) : ℕ :=
  let amount := s.selfBalance
  let fee := (mulU 128 amount (s.readU64 feeBpsKey)).val / 10000
  (subU 128 amount fee).val

/-- The state after the locked total of a token was raised. -/
def lockTokens (s : ContractState) (chain token : Bytes) : ContractState :=
  let lk := lockedKey chain token
  let s := s.writeU128 lk (addU 128 (s.readU128 lk) (netAmount s)).val
  s.emitEvent "BridgeLocked"

def bridgeLock (_env : CallEnv) (args : Bytes) (s : ContractState) : Outcome := do
  requireNotPaused s
  if argsLen args < 12 then
    return (-1, s.emitEvent "BridgeLockFailed:InvalidArgs")
  else
    let chainLen := ofLeBytes (← slice args 0 4)
    if args.length < usize (4 + chainLen + 4) then return (-1, s)
    else
      let chain ← slice args 4 (usize (4 + chainLen))
      let offset := usize (4 + chainLen)
      let tokenLen := ofLeBytes (← slice args offset (usize (offset + 4)))
      if args.length < usize (offset + 4 + tokenLen + 4) then return (-1, s)
      else
        let token ← slice args (usize (offset + 4)) (usize (offset + 4 + tokenLen))
        let offset := usize (offset + 4 + tokenLen)
        let recipLen := ofLeBytes (← slice args offset (usize (offset + 4)))
        if args.length < usize (offset + 4 + recipLen) then return (-1, s)
        else if s.selfBalance = 0 then
          return (-1, s.emitEvent "BridgeLockFailed:ZeroAmount")
        else
          return (0, lockTokens s chain token)

def mintWrapped (s : ContractState) (chain token : Bytes) (recipient : Address) (amount : ℕ) :
    ContractState :=
  let bk := wrappedBalanceKey chain token recipient
  let s := s.writeU128 bk (addU 128 (s.readU128 bk) amount).val
  let sk := wrappedSupplyKey chain token
  let s := s.writeU128 sk (addU 128 (s.readU128 sk) amount).val
  s.emitEvent "WrappedMinted"

def bridgeMint (env : CallEnv) (args : Bytes) (s : ContractState) : Outcome := do
  requireOwner env s
  requireNotPaused s
  if argsLen args < 44 then return (-1, s)
  else
    let (chain, token, recipient, amount) ← parseMint args
    return (0, mintWrapped s chain token recipient amount)

/-- The state after wrapped tokens were burned. The supply is lowered by a saturating
subtraction. -/
def burnWrapped (s : ContractState) (chain token : Bytes) (caller : Address) (amount : ℕ) :
    ContractState :=
  let bk := wrappedBalanceKey chain token caller
  let s := s.writeU128 bk (s.readU128 bk - amount)
  let sk := wrappedSupplyKey chain token
  let s := s.writeU128 sk (s.readU128 sk - amount)
  s.emitEvent "WrappedBurned"

def bridgeBurn (env : CallEnv) (args : Bytes) (s : ContractState) : Outcome := do
  requireNotPaused s
  if argsLen args < 28 then return (-1, s)
  else
    let (chain, token, amount) ← parseBurn args
    if s.readU128 (wrappedBalanceKey chain token env.caller) < amount then
      return (-1, s.emitEvent "BurnFailed:InsufficientBalance")
    else
      return (0, burnWrapped s chain token env.caller amount)

def storeValidator (s : ContractState) (addr : Address) : ContractState :=
  let s := s.writeBool (validatorKey addr) true
  let s := s.writeU64 validatorCountKey (addU 64 (s.readU64 validatorCountKey) 1).val
  s.emitEvent "ValidatorAdded"

def addValidator (env : CallEnv) (args : Bytes) (s : ContractState) : Outcome := do
  requireOwner env s
  if argsLen args < 20 then return (-1, s)
  else
    let addr := addressOfBytes (← slice args 0 20)
    return (0, storeValidator s addr)

def dropValidator (s : ContractState) (addr : Address) : ContractState :=
  let s := s.writeBool (validatorKey addr) false
  let count := s.readU64 validatorCountKey
  let s := if 0 < count then s.writeU64 validatorCountKey (count - 1) else s
  s.emitEvent "ValidatorRemoved"

def removeValidator (env : CallEnv) (args : Bytes) (s : ContractState) : Outcome := do
  requireOwner env s
  if argsLen args < 20 then return (-1, s)
  else
    let addr := addressOfBytes (← slice args 0 20)
    return (0, dropValidator s addr)

def pause (env : CallEnv) (s : ContractState) : Outcome := do
  requireOwner env s
  return (0, (s.writeBool pausedKey true).emitEvent "BridgePaused")

def unpause (env : CallEnv) (s : ContractState) : Outcome := do
  requireOwner env s
  return (0, (s.writeBool pausedKey false).emitEvent "BridgeUnpaused")

/-- A call of an exported function, with its arguments. -/
inductive Entry where
  | init
  | createHtlc (args : Bytes)
  | claimHtlc (args : Bytes)
  | refundHtlc (args : Bytes)
  | bridgeLock (args : Bytes)
  | bridgeMint (args : Bytes)
  | bridgeBurn (args : Bytes)
  | addValidator (args : Bytes)
  | removeValidator (args : Bytes)
  | pause
  | unpause
  | htlcCount
  | validatorCount
  deriving DecidableEq, Repr

/-- The exported functions by name. `htlc_count` and `validator_count` return an `i32`. -/
def call (env : CallEnv) (s : ContractState) : Entry → Outcome
  | .init => .ok (0, init env s)
  | .createHtlc args => createHtlc env args s
  | .claimHtlc args => claimHtlc env args s
  | .refundHtlc args => refundHtlc env args s
  | .bridgeLock args => bridgeLock env args s
  | .bridgeMint args => bridgeMint env args s
  | .bridgeBurn args => bridgeBurn env args s
  | .addValidator args => addValidator env args s
  | .removeValidator args => removeValidator env args s
  | .pause => pause env s
  | .unpause => unpause env s
  | .htlcCount => .ok (wrapI 32 (s.readU64 htlcCountKey), s)
  | .validatorCount => .ok (wrapI 32 (s.readU64 validatorCountKey), s)

/-! ### What a call has done -/

/-- **What a call that returns has done**, with what it has checked before. -/
inductive Effect (env : CallEnv) (s : ContractState) : Entry → ℤ → ContractState → Prop
  | refused {e s'} (h : Quiet s s') : Effect env s e (-1) s'
  | init : Effect env s .init 0 (init env s)
  | created {args hashLock recipient timelock} (hpaused : s.readBool pausedKey = false)
      (hargs : slice args 0 32 = .ok hashLock) (htime : timelock < 2 ^ 64)
      (hpos : s.selfBalance ≠ 0) (hnew : s.storageRead (htlcKey (hexEncode32 hashLock)) = none) :
      Effect env s (.createHtlc args) 0 (storeHtlc s (htlcKey (hexEncode32 hashLock))
        (encodeHtlc env.caller recipient s.selfBalance timelock 0))
  | claimed {args data htlc}
      (hdata : s.storageRead (htlcKey (hexEncode32 (simpleSha256 args))) = some data)
      (hdec : decodeHtlc data = some htlc) (hactive : htlc.status = 0)
      (hcaller : env.caller = htlc.recipient) (htime : env.timestamp < htlc.timelock) :
      Effect env s (.claimHtlc args) 0
        (settleHtlc claim s (htlcKey (hexEncode32 (simpleSha256 args))) htlc)
  | refunded {args hashLock data htlc} (hargs : slice args 0 32 = .ok hashLock)
      (hdata : s.storageRead (htlcKey (hexEncode32 hashLock)) = some data)
      (hdec : decodeHtlc data = some htlc) (hactive : htlc.status = 0)
      (hcaller : env.caller = htlc.sender) (htime : htlc.timelock ≤ env.timestamp) :
      Effect env s (.refundHtlc args) 0
        (settleHtlc refund s (htlcKey (hexEncode32 hashLock)) htlc)
  | locked {args chain token} (hpaused : s.readBool pausedKey = false)
      (hpos : s.selfBalance ≠ 0) : Effect env s (.bridgeLock args) 0 (lockTokens s chain token)
  | minted {args chain token recipient amount} (howner : env.caller = s.readAddress ownerKey)
      (hpaused : s.readBool pausedKey = false)
      (hargs : parseMint args = .ok (chain, token, recipient, amount)) :
      Effect env s (.bridgeMint args) 0 (mintWrapped s chain token recipient amount)
  | burned {args chain token amount} (hpaused : s.readBool pausedKey = false)
      (hargs : parseBurn args = .ok (chain, token, amount))
      (hcovered : amount ≤ s.readU128 (wrappedBalanceKey chain token env.caller)) :
      Effect env s (.bridgeBurn args) 0 (burnWrapped s chain token env.caller amount)
  | validatorAdded {args addr} (howner : env.caller = s.readAddress ownerKey) :
      Effect env s (.addValidator args) 0 (storeValidator s addr)
  | validatorRemoved {args addr} (howner : env.caller = s.readAddress ownerKey) :
      Effect env s (.removeValidator args) 0 (dropValidator s addr)
  | paused (howner : env.caller = s.readAddress ownerKey) :
      Effect env s .pause 0 ((s.writeBool pausedKey true).emitEvent "BridgePaused")
  | unpaused (howner : env.caller = s.readAddress ownerKey) :
      Effect env s .unpause 0 ((s.writeBool pausedKey false).emitEvent "BridgeUnpaused")
  | htlcCount : Effect env s .htlcCount (wrapI 32 (s.readU64 htlcCountKey)) s
  | validatorCount : Effect env s .validatorCount (wrapI 32 (s.readU64 validatorCountKey)) s

variable {env : CallEnv}

theorem requireOwner_eq_ok {s : ContractState} :
    requireOwner env s = .ok () ↔ env.caller = s.readAddress ownerKey := by
  rw [requireOwner, check_eq_ok, not_not]

theorem requireNotPaused_eq_ok {s : ContractState} :
    requireNotPaused s = .ok () ↔ s.readBool pausedKey = false := by
  rw [requireNotPaused, check_eq_ok, Bool.not_eq_true]

section
variable {env : CallEnv} {s s' : ContractState} {args : Bytes} {code : ℤ}

theorem ofLeBytes_slice_lt {lo hi : ℕ} {b : Bytes} (h : slice args lo hi = .ok b) :
    ofLeBytes b < 256 ^ (hi - lo) := by
  obtain ⟨⟨_, hhi⟩, rfl⟩ := slice_eq_ok_iff.mp h
  have hlt := ofLeBytes_lt ((args.take hi).drop lo)
  rwa [List.length_drop, List.length_take, min_eq_left hhi] at hlt

theorem effect_createHtlc (h : createHtlc env args s = .ok (code, s')) :
    Effect env s (.createHtlc args) code s' := by
  unfold createHtlc at h
  obtain ⟨hp, h⟩ := bind_eq_ok.mp h
  have hpaused := requireNotPaused_eq_ok.mp hp
  split_ifs at h with hlen
  · cases h
    exact .refused (quiet_emitEvent s _)
  · obtain ⟨hashLock, hhash, h⟩ := bind_eq_ok_iff.mp h
    obtain ⟨rbytes, _, h⟩ := bind_eq_ok_iff.mp h
    obtain ⟨tbytes, ht, h⟩ := bind_eq_ok_iff.mp h
    dsimp only at h
    split_ifs at h with h0 hold
    · cases h
      exact .refused (quiet_emitEvent s _)
    · cases h
      exact .refused (quiet_emitEvent s _)
    · cases h
      refine .created hpaused hhash ?_ h0 (Option.not_isSome_iff_eq_none.mp hold)
      exact ofLeBytes_slice_lt ht

theorem trySettle_cases (k : Settlement) (env : CallEnv) (key : Bytes) (s : ContractState) :
    (∃ s', Quiet s s' ∧ trySettle k env key s = (-1, s')) ∨
      ∃ data htlc, s.storageRead key = some data ∧ decodeHtlc data = some htlc ∧
        htlc.status = 0 ∧ env.caller = k.party htlc ∧ k.refuses htlc env.timestamp = false ∧
        trySettle k env key s = (0, settleHtlc k s key htlc) := by
  unfold trySettle
  cases hdata : s.storageRead key with
  | none => exact .inl ⟨_, quiet_emitEvent s _, rfl⟩
  | some data =>
    cases hdec : decodeHtlc data with
    | none => exact .inl ⟨_, Quiet.rfl, by simp only [hdec]⟩
    | some htlc =>
      simp only [hdec]
      split_ifs with h1 h2 h3
      · exact .inl ⟨_, quiet_emitEvent s _, rfl⟩
      · exact .inl ⟨_, quiet_emitEvent s _, rfl⟩
      · exact .inl ⟨_, quiet_emitEvent s _, rfl⟩
      · exact .inr ⟨data, htlc, rfl, hdec, not_not.mp h1, not_not.mp h2,
          Bool.not_eq_true _ ▸ h3, rfl⟩

theorem effect_claimHtlc (h : claimHtlc env args s = .ok (code, s')) :
    Effect env s (.claimHtlc args) code s' := by
  unfold claimHtlc at h
  split_ifs at h with hlen
  · cases h
    exact .refused .rfl
  · rcases trySettle_cases claim env (htlcKey (hexEncode32 (simpleSha256 args))) s with
      ⟨u, hu, heq⟩ | ⟨data, htlc, hdata, hdec, hactive, hcaller, htime, heq⟩
    · rw [heq] at h
      cases h
      exact .refused hu
    · rw [heq] at h
      cases h
      exact .claimed hdata hdec hactive hcaller (Nat.not_le.mp (of_decide_eq_false htime))

theorem effect_refundHtlc (h : refundHtlc env args s = .ok (code, s')) :
    Effect env s (.refundHtlc args) code s' := by
  unfold refundHtlc at h
  split_ifs at h with hlen
  · cases h
    exact .refused .rfl
  · obtain ⟨hashLock, hhash, h⟩ := bind_eq_ok_iff.mp h
    rcases trySettle_cases refund env (htlcKey (hexEncode32 hashLock)) s with
      ⟨u, hu, heq⟩ | ⟨data, htlc, hdata, hdec, hactive, hcaller, htime, heq⟩
    · rw [heq] at h
      cases h
      exact .refused hu
    · rw [heq] at h
      cases h
      exact .refunded hhash hdata hdec hactive hcaller
        (Nat.not_lt.mp (of_decide_eq_false htime))

theorem effect_bridgeLock (h : bridgeLock env args s = .ok (code, s')) :
    Effect env s (.bridgeLock args) code s' := by
  unfold bridgeLock at h
  obtain ⟨hp, h⟩ := bind_eq_ok.mp h
  split at h
  · cases h
    exact .refused (quiet_emitEvent s _)
  · obtain ⟨cbytes, _, h⟩ := bind_eq_ok_iff.mp h
    dsimp only at h
    split at h
    · cases h
      exact .refused .rfl
    · obtain ⟨chain, _, h⟩ := bind_eq_ok_iff.mp h
      obtain ⟨tbytes, _, h⟩ := bind_eq_ok_iff.mp h
      split at h
      · cases h
        exact .refused .rfl
      · obtain ⟨token, _, h⟩ := bind_eq_ok_iff.mp h
        obtain ⟨rbytes, _, h⟩ := bind_eq_ok_iff.mp h
        split_ifs at h with hrecip h0
        · cases h
          exact .refused .rfl
        · cases h
          exact .refused (quiet_emitEvent s _)
        · cases h
          exact .locked (requireNotPaused_eq_ok.mp hp) h0

theorem effect_bridgeMint (h : bridgeMint env args s = .ok (code, s')) :
    Effect env s (.bridgeMint args) code s' := by
  unfold bridgeMint at h
  obtain ⟨ho, h⟩ := bind_eq_ok.mp h
  obtain ⟨hp, h⟩ := bind_eq_ok.mp h
  split_ifs at h with hlen
  · cases h
    exact .refused .rfl
  · obtain ⟨⟨chain, token, recipient, amount⟩, hargs, h⟩ := bind_eq_ok_iff.mp h
    cases h
    exact .minted (requireOwner_eq_ok.mp ho) (requireNotPaused_eq_ok.mp hp) hargs

theorem effect_bridgeBurn (h : bridgeBurn env args s = .ok (code, s')) :
    Effect env s (.bridgeBurn args) code s' := by
  unfold bridgeBurn at h
  obtain ⟨hp, h⟩ := bind_eq_ok.mp h
  split_ifs at h with hlen
  · cases h
    exact .refused .rfl
  · obtain ⟨⟨chain, token, amount⟩, hargs, h⟩ := bind_eq_ok_iff.mp h
    dsimp only at h
    split_ifs at h with hlow
    · cases h
      exact .refused (quiet_emitEvent s _)
    · cases h
      exact .burned (requireNotPaused_eq_ok.mp hp) hargs (Nat.not_lt.mp hlow)

theorem effect_addValidator (h : addValidator env args s = .ok (code, s')) :
    Effect env s (.addValidator args) code s' := by
  unfold addValidator at h
  obtain ⟨ho, h⟩ := bind_eq_ok.mp h
  split_ifs at h with hlen
  · cases h
    exact .refused .rfl
  · obtain ⟨abytes, _, h⟩ := bind_eq_ok_iff.mp h
    cases h
    exact .validatorAdded (requireOwner_eq_ok.mp ho)

theorem effect_removeValidator (h : removeValidator env args s = .ok (code, s')) :
    Effect env s (.removeValidator args) code s' := by
  unfold removeValidator at h
  obtain ⟨ho, h⟩ := bind_eq_ok.mp h
  split_ifs at h with hlen
  · cases h
    exact .refused .rfl
  · obtain ⟨abytes, _, h⟩ := bind_eq_ok_iff.mp h
    cases h
    exact .validatorRemoved (requireOwner_eq_ok.mp ho)

theorem effect_call {e : Entry} (h : call env s e = .ok (code, s')) : Effect env s e code s' := by
  cases e with
  | init =>
    cases h
    exact .init
  | createHtlc args => exact effect_createHtlc h
  | claimHtlc args => exact effect_claimHtlc h
  | refundHtlc args => exact effect_refundHtlc h
  | bridgeLock args => exact effect_bridgeLock h
  | bridgeMint args => exact effect_bridgeMint h
  | bridgeBurn args => exact effect_bridgeBurn h
  | addValidator args => exact effect_addValidator h
  | removeValidator args => exact effect_removeValidator h
  | pause =>
    obtain ⟨ho, h⟩ := bind_eq_ok.mp h
    cases h
    exact .paused (requireOwner_eq_ok.mp ho)
  | unpause =>
    obtain ⟨ho, h⟩ := bind_eq_ok.mp h
    cases h
    exact .unpaused (requireOwner_eq_ok.mp ho)
  | htlcCount =>
    obtain ⟨rfl, rfl⟩ := Prod.mk.inj (Except.ok.inj h)
    exact .htlcCount
  | validatorCount =>
    obtain ⟨rfl, rfl⟩ := Prod.mk.inj (Except.ok.inj h)
    exact .validatorCount

end

/-! ### What a call leaves alone -/

/-- The families of keys that a call can write. -/
def Entry.touches : Entry → List Word
  | .init => [.owner, .paused, .htlcCount, .validatorCount, .minSignatures, .feeBps]
  | .createHtlc _ => [.htlc, .htlcCount]
  | .claimHtlc _ | .refundHtlc _ => [.htlc]
  | .bridgeLock _ => [.locked]
  | .bridgeMint _ | .bridgeBurn _ => [.wrapped, .wrappedSupply]
  | .addValidator _ | .removeValidator _ => [.validator, .validatorCount]
  | .pause | .unpause => [.paused]
  | .htlcCount | .validatorCount => []

section
variable {v w : Word} (h : w ≠ v) (s : ContractState) (a b : Bytes)
include h

theorem storageRead_storageWrite_key (value : Bytes) :
    (s.storageWrite (words.key v a) value).storageRead (words.key w b) =
      s.storageRead (words.key w b) :=
  ContractState.storageRead_storageWrite_of_ne s (Words.key_ne h b a) value

theorem storageRead_writeU64_key (value : ℕ) :
    (s.writeU64 (words.key v a) value).storageRead (words.key w b) =
      s.storageRead (words.key w b) :=
  storageRead_storageWrite_key h s a b _

theorem storageRead_writeU128_key (value : ℕ) :
    (s.writeU128 (words.key v a) value).storageRead (words.key w b) =
      s.storageRead (words.key w b) :=
  storageRead_storageWrite_key h s a b _

theorem storageRead_writeBool_key (value : Bool) :
    (s.writeBool (words.key v a) value).storageRead (words.key w b) =
      s.storageRead (words.key w b) :=
  storageRead_storageWrite_key h s a b _

end

theorem storageRead_settleHtlc_of_ne (k : Settlement) (s : ContractState) {key key' : Bytes}
    (h : key' ≠ key) (htlc : HtlcData) :
    (settleHtlc k s key htlc).storageRead key' = s.storageRead key' := by
  unfold settleHtlc
  rw [ContractState.storageRead_emitEvent, ContractState.storageRead_storageWrite_of_ne _ h,
    ContractState.storageRead_transfer]

variable {s s' : ContractState}

theorem Effect.frame {e : Entry} {code : ℤ} (h : Effect env s e code s') {w : Word}
    (hw : w ∉ e.touches) (rest : Bytes) :
    s'.storageRead (words.key w rest) = s.storageRead (words.key w rest) := by
  cases h with
  | refused h => exact h.storageRead _
  | init =>
    simp only [Entry.touches, List.mem_cons, List.not_mem_nil, or_false, not_or] at hw
    obtain ⟨h1, h2, h3, h4, h5, h6⟩ := hw
    simp only [Bridge.init, ownerKey, pausedKey, htlcCountKey, validatorCountKey,
      minSignaturesKey, feeBpsKey, ContractState.storageRead_emitEvent,
      storageRead_writeU64_key h3, storageRead_writeU64_key h4, storageRead_writeU64_key h5,
      storageRead_writeU64_key h6, storageRead_writeBool_key h2, storageRead_storageWrite_key h1]
  | created _ _ _ _ _ =>
    simp only [Entry.touches, List.mem_cons, List.not_mem_nil, or_false, not_or] at hw
    simp only [storeHtlc, htlcKey, htlcCountKey, ContractState.storageRead_emitEvent,
      storageRead_storageWrite_key hw.1, storageRead_writeU64_key hw.2]
  | claimed _ _ _ _ _ =>
    exact storageRead_settleHtlc_of_ne _ s (Words.key_ne (List.ne_of_not_mem_cons hw) _ _) _
  | refunded _ _ _ _ _ _ =>
    exact storageRead_settleHtlc_of_ne _ s (Words.key_ne (List.ne_of_not_mem_cons hw) _ _) _
  | locked _ _ =>
    have hne : w ≠ .locked := List.ne_of_not_mem_cons hw
    simp only [lockTokens, lockedKey, ContractState.storageRead_emitEvent,
      storageRead_writeU128_key hne]
  | minted _ _ _ =>
    simp only [Entry.touches, List.mem_cons, List.not_mem_nil, or_false, not_or] at hw
    unfold mintWrapped
    rw [ContractState.storageRead_emitEvent]
    exact (storageRead_writeU128_key hw.2 _ _ rest _).trans
      (storageRead_writeU128_key hw.1 s _ rest _)
  | burned _ _ _ =>
    simp only [Entry.touches, List.mem_cons, List.not_mem_nil, or_false, not_or] at hw
    unfold burnWrapped
    rw [ContractState.storageRead_emitEvent]
    exact (storageRead_writeU128_key hw.2 _ _ rest _).trans
      (storageRead_writeU128_key hw.1 s _ rest _)
  | validatorAdded _ =>
    simp only [Entry.touches, List.mem_cons, List.not_mem_nil, or_false, not_or] at hw
    simp only [storeValidator, validatorKey, validatorCountKey,
      ContractState.storageRead_emitEvent, storageRead_writeBool_key hw.1,
      storageRead_writeU64_key hw.2]
  | validatorRemoved _ =>
    simp only [Entry.touches, List.mem_cons, List.not_mem_nil, or_false, not_or] at hw
    have hcount : ∀ (t : ContractState) (count : ℕ),
        (if 0 < count then t.writeU64 validatorCountKey (count - 1)
          else t).storageRead (words.key w rest) = t.storageRead (words.key w rest) := by
      intro t count
      split_ifs
      · exact storageRead_writeU64_key hw.2 t _ rest _
      · rfl
    unfold dropValidator
    rw [ContractState.storageRead_emitEvent, hcount]
    exact storageRead_writeBool_key hw.1 s _ rest false
  | paused _ =>
    rw [ContractState.storageRead_emitEvent]
    exact storageRead_writeBool_key (List.ne_of_not_mem_cons hw) s _ rest true
  | unpaused _ =>
    rw [ContractState.storageRead_emitEvent]
    exact storageRead_writeBool_key (List.ne_of_not_mem_cons hw) s _ rest false
  | htlcCount => rfl
  | validatorCount => rfl

theorem reads_init (env : CallEnv) (s : ContractState) :
    (init env s).readAddress ownerKey = env.caller ∧ (init env s).readBool pausedKey = false ∧
      (init env s).readU64 htlcCountKey = 0 ∧ (init env s).readU64 validatorCountKey = 0 ∧
      (init env s).readU64 minSignaturesKey = 2 ∧ (init env s).readU64 feeBpsKey = 10 := by
  have h : (init env s).storageRead ownerKey = some env.caller.asBytes ∧
      (init env s).storageRead pausedKey = some [if false then 1 else 0] ∧
      (init env s).storageRead htlcCountKey = some (leBytes 64 0) ∧
      (init env s).storageRead validatorCountKey = some (leBytes 64 0) ∧
      (init env s).storageRead minSignaturesKey = some (leBytes 64 2) ∧
      (init env s).storageRead feeBpsKey = some (leBytes 64 10) := by
    simp only [init, ownerKey, pausedKey, htlcCountKey, validatorCountKey, minSignaturesKey,
      feeBpsKey, ContractState.storageRead_emitEvent, storageRead_writeU64_key,
      storageRead_writeBool_key, ContractState.storageRead_writeU64_self,
      ContractState.storageRead_writeBool_self, ContractState.storageRead_storageWrite_self,
      ContractState.asBytes_ne_nil, ne_eq, reduceCtorEq, not_false_eq_true, and_self]
  obtain ⟨h1, h2, h3, h4, h5, h6⟩ := h
  exact ⟨ContractState.readAddress_of_storageRead h1, ContractState.readBool_of_storageRead h2,
    ContractState.readU64_of_storageRead h3, ContractState.readU64_of_storageRead h4,
    ContractState.readU64_of_storageRead h5, ContractState.readU64_of_storageRead h6⟩

theorem storageRead_storeHtlc (s : ContractState) (hex hex' : Bytes) {data : Bytes}
    (h : data ≠ []) : (storeHtlc s (htlcKey hex) data).storageRead (htlcKey hex') =
      if hex' = hex then some data else s.storageRead (htlcKey hex') := by
  have hcount : (storeHtlc s (htlcKey hex) data).storageRead (htlcKey hex') =
      (s.storageWrite (htlcKey hex) data).storageRead (htlcKey hex') :=
    storageRead_writeU64_key (by decide) _ _ hex' _
  rw [hcount]
  split_ifs with he
  · rw [he, ContractState.storageRead_storageWrite_self s _ h]
  · exact ContractState.storageRead_storageWrite_of_ne s (fun hk => he (Words.key_inj.mp hk)) _

theorem storageRead_settleHtlc (k : Settlement) (s : ContractState) (hex hex' : Bytes)
    (htlc : HtlcData) : (settleHtlc k s (htlcKey hex) htlc).storageRead (htlcKey hex') =
      if hex' = hex then
        some (encodeHtlc htlc.sender htlc.recipient htlc.amount htlc.timelock k.status)
      else s.storageRead (htlcKey hex') := by
  split_ifs with he
  · rw [he]
    exact ContractState.storageRead_storageWrite_self _ _ (encodeHtlc_ne_nil _ _ _ _ _)
  · exact storageRead_settleHtlc_of_ne k s (fun hk => he (Words.key_inj.mp hk)) htlc

def Entry.settles : Entry → Bool
  | .claimHtlc _ | .refundHtlc _ => true
  | _ => false

theorem Effect.balance_eq {e : Entry} {code : ℤ} (h : Effect env s e code s')
    (he : e.settles = false) :
    s'.balance = s.balance ∧ s'.transfers = s.transfers := by
  cases h with
  | refused h => exact ⟨h.balance, h.transfers⟩
  | claimed _ _ _ _ _ => cases he
  | refunded _ _ _ _ _ _ => cases he
  | validatorRemoved _ =>
    unfold dropValidator
    dsimp only
    split_ifs <;> exact ⟨rfl, rfl⟩
  | _ => exact ⟨rfl, rfl⟩

/-- The call returns `0`. -/
def Succeeds (env : CallEnv) (s : ContractState) (e : Entry) : Prop :=
  (call env s e).toOption.map Prod.fst = some 0

instance (env : CallEnv) (s : ContractState) (e : Entry) : Decidable (Succeeds env s e) :=
  inferInstanceAs (Decidable (_ = _))

theorem not_succeeds_of_error {s : ContractState} {e : Entry} {t : Trap}
    (h : call env s e = .error t) : ¬ Succeeds env s e := by
  unfold Succeeds
  rw [h]
  exact nofun

theorem succeeds_iff {e : Entry} {code : ℤ} (h : call env s e = .ok (code, s')) :
    Succeeds env s e ↔ code = 0 := by
  unfold Succeeds
  rw [h]
  exact Option.some_inj

/-! ### Runs -/

abbrev Op := Contracts.Op Entry

def next (s : ContractState) (op : Op) : ContractState := step call s op

def after (s : ContractState) (ops : List Op) : ContractState := ops.foldl next s

theorem next_of_ok {e : Entry} {code : ℤ} (h : call env s e = .ok (code, s')) :
    next s (.call env e) = s' := step_of_ok h

theorem call_cases (env : CallEnv) (s : ContractState) (e : Entry) :
    (∃ t, call env s e = .error t ∧ next s (.call env e) = s) ∨
      ∃ code s', call env s e = .ok (code, s') ∧ next s (.call env e) = s' ∧
        Effect env s e code s' := by
  cases h : call env s e with
  | error t => exact .inl ⟨t, rfl, step_of_error h⟩
  | ok r =>
    obtain ⟨code, s'⟩ := r
    exact .inr ⟨code, s', rfl, next_of_ok h, effect_call h⟩

end Rustchain.Contracts.Bridge
