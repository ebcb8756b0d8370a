import Mathlib.Data.Set.Defs
import Rustchain.Core.Types
import Rustchain.Lib.Checks
import Rustchain.Lib.Keys

/-! # Hashing, signatures, blocks and validator sets

What the chain takes from other crates is a parameter `P : Primitives`: Blake3, Ed25519, `bincode`
and the seeded generator of the proposer lottery. Everything here is what `rustchain_crypto` and
`rustchain_core` build from them. `hash_multiple` puts lengths before the items, so that different
lists are hashed from different bytes. -/

namespace Rustchain.Core

open Lib.Machine Lib.Checks Lib.Keys

/-- The third-party functions the chain is built on. -/
structure Primitives where
  /-- `blake3::hash`; an incremental hasher hashes the concatenation of its updates. -/
  blake3 : Bytes → Blake3Hash
  /-- The public half of an Ed25519 signing key. -/
  verifyingKey : SecretKey → PublicKey
  /-- Ed25519 signing. -/
  sign : SecretKey → Bytes → Signature
  /-- Ed25519 verification; `false` also for bytes that are no point of the curve. -/
  verify : PublicKey → Bytes → Signature → Bool
  /-- `bincode::serialize` of a header. -/
  serializeHeader : BlockHeader → Bytes
  /-- `bincode::serialize` of a transaction. -/
  serializeTransaction : Transaction → Bytes
  /-- `ChaCha20Rng::from_seed(seed).gen_range(0..n)`. -/
  genRange : Blake3Hash → ℕ → ℕ

variable (P : Primitives)

/-! ### Keys and hashes -/

/-- The bytes `hash_multiple` feeds to the hasher: every item after its length. -/
def hashMultipleInput (items : List Bytes) : Bytes :=
  items.flatMap fun item => leBytes 64 item.length ++ item

def hashMultiple (items : List Bytes) : Blake3Hash := P.blake3 (hashMultipleInput items)

/-- An item after its length, as `hash_multiple` feeds it. -/
def framed (item : Bytes) : Bytes := leBytes 64 item.length ++ item

theorem framed_injective : Function.Injective framed := by
  intro x y h
  exact (List.append_inj h (by rw [length_leBytes, length_leBytes])).2

theorem framed_ne_nil (item : Bytes) : framed item ≠ [] := by
  intro h
  have hlen := congrArg List.length (List.append_eq_nil_iff.mp h).1
  rw [length_leBytes] at hlen
  cases hlen

theorem prefixFree_framed :
    PrefixFree fun item : {item : Bytes // item.length < 2 ^ 64} => framed item.1 := by
  rintro ⟨x, hx⟩ ⟨y, hy⟩ hne ⟨t, ht⟩
  unfold framed at ht
  rw [List.append_assoc] at ht
  obtain ⟨hbytes, hrest⟩ := List.append_inj ht (by rw [length_leBytes, length_leBytes])
  have hlen : x.length % 2 ^ 64 = y.length % 2 ^ 64 := leBytes_inj hbytes
  rw [Nat.mod_eq_of_lt hx, Nat.mod_eq_of_lt hy] at hlen
  exact hne (Subtype.ext (List.IsPrefix.eq_of_length ⟨t, hrest⟩ hlen))

theorem framed_append_inj {x y r r' : Bytes} (hx : x.length < 2 ^ 64) (hy : y.length < 2 ^ 64)
    (h : framed x ++ r = framed y ++ r') : x = y ∧ r = r' := by
  obtain ⟨hxy, hr⟩ := prefixFree_framed.append_inj (i := ⟨x, hx⟩) (j := ⟨y, hy⟩) h
  exact ⟨congrArg Subtype.val hxy, hr⟩

theorem hashMultipleInput_eq_flatten (items : List Bytes) :
    hashMultipleInput items = (items.map framed).flatten := List.flatMap_def ..

/-- **What is hashed determines the items**, their number and their contents. -/
theorem hashMultipleInput_eq_iff {items items' : List Bytes}
    (hitems : ∀ item ∈ items, item.length < 2 ^ 64)
    (hitems' : ∀ item ∈ items', item.length < 2 ^ 64) :
    hashMultipleInput items = hashMultipleInput items' ↔ items = items' := by
  refine ⟨fun h => ?_, congrArg hashMultipleInput⟩
  rw [hashMultipleInput_eq_flatten, hashMultipleInput_eq_flatten] at h
  have hwords : ∀ l : List Bytes, (∀ item ∈ l, item.length < 2 ^ 64) → ∀ w ∈ l.map framed,
      w ∈ Set.range fun item : {item : Bytes // item.length < 2 ^ 64} => framed item.1 := by
    intro l hl w hw
    obtain ⟨item, hmem, rfl⟩ := List.mem_map.mp hw
    exact ⟨⟨item, hl item hmem⟩, rfl⟩
  have hparse := prefixFree_framed.uniquelyDecodable fun item => framed_ne_nil item.1
  have hmaps := hparse _ _ (hwords items hitems) (hwords items' hitems') h
  exact List.map_injective_iff.mpr framed_injective hmaps

/-- The lists of `test_hash_multiple_domain_separation`. -/
theorem hashMultipleInput_ab_cd :
    hashMultipleInput [[97, 98], [99, 100]] ≠ hashMultipleInput [[97, 98, 99], [100]] :=
  fun h => absurd ((hashMultipleInput_eq_iff (by decide) (by decide)).mp h) (by decide)

/-- The first 20 bytes of a hash, as an address. -/
def Blake3Hash.toAddress (h : Blake3Hash) : Address := ⟨(h.bytes.take 20).cast (by decide)⟩

namespace PublicKey

def asBytes (k : PublicKey) : Bytes := k.bytes.toList

def verify (k : PublicKey) (message : Bytes) (s : Signature) : Except CryptoError Unit :=
  if P.verify k message s then .ok () else .error .invalidSignature

def toAddress (k : PublicKey) : Address := (P.blake3 k.asBytes).toAddress

theorem verify_eq_ok {k : PublicKey} {m : Bytes} {s : Signature} :
    k.verify P m s = .ok () ↔ P.verify k m s = true := by
  unfold verify
  split_ifs with h <;> simp [h]

end PublicKey

/-- A key pair. -/
structure KeyPair where
  signingKey : SecretKey
  deriving DecidableEq, Repr

namespace KeyPair

def publicKey (k : KeyPair) : PublicKey := P.verifyingKey k.signingKey

def sign (k : KeyPair) (message : Bytes) : Signature := P.sign k.signingKey message

def address (k : KeyPair) : Address := (k.publicKey P).toAddress P

end KeyPair

/-! ### Merkle roots -/

/-- If the number of hashes is odd, the last one is duplicated. -/
def padEven (l : List Blake3Hash) : List Blake3Hash :=
  if l.length % 2 = 0 then l else l ++ l.getLast?.toList

def hashPairs : List Blake3Hash → List Blake3Hash
  | a :: b :: rest => hashMultiple P [a.asBytes, b.asBytes] :: hashPairs rest
  | _ => []

/-- The layers above `current`, while it has more than one hash. Each layer is at most as long as
half of the one below, rounded up, so the length of the first is enough fuel. -/
def merkleLayers : ℕ → List Blake3Hash → List (List Blake3Hash)
  | 0, _ => []
  | fuel + 1, current =>
    if current.length ≤ 1 then []
    else hashPairs P (padEven current) :: merkleLayers fuel (hashPairs P (padEven current))

structure MerkleTree where
  leaves : List Blake3Hash
  layers : List (List Blake3Hash)

def MerkleTree.new (leaves : List Blake3Hash) : MerkleTree :=
  if leaves.isEmpty then ⟨[], [[Blake3Hash.zero]]⟩
  else ⟨leaves, leaves :: merkleLayers P leaves.length leaves⟩

def MerkleTree.root (t : MerkleTree) : Blake3Hash :=
  ((t.layers.getLast?).bind List.head?).getD Blake3Hash.zero

def computeMerkleRoot (items : List Bytes) : Blake3Hash :=
  (MerkleTree.new P (items.map P.blake3)).root

/-! ### Signed transactions -/

def Transaction.signingHash (t : Transaction) : Blake3Hash := P.blake3 (P.serializeTransaction t)

namespace SignedTransaction

def new (tx : Transaction) (k : KeyPair) : SignedTransaction :=
  let signature := k.sign P (tx.signingHash P).asBytes
  ⟨tx, k.publicKey P, signature, P.blake3 (P.serializeTransaction tx ++ signature.bytes.toList)⟩

/-- `SignedTransaction::verify`. The stored hash is not looked at. -/
def verify (t : SignedTransaction) : Except CoreError Unit := do
  t.transaction.validateBasic
  if t.publicKey.toAddress P ≠ t.transaction.sender then
    throw (.invalidTransaction "sender address does not match public key")
  (t.publicKey.verify P (t.transaction.signingHash P).asBytes t.signature).mapError
    .invalidSignature

theorem verify_ok {t : SignedTransaction} (h : t.verify P = .ok ()) :
    t.transaction.gasLimit ≠ 0 ∧ t.transaction.gasPrice ≠ 0 ∧
      t.publicKey.toAddress P = t.transaction.sender := by
  unfold verify Transaction.validateBasic at h
  simp only [check_then_eq_ok, bind_eq_ok, ne_eq, not_not] at h
  exact ⟨h.1.2.1, h.1.2.2.1, h.2.1⟩

end SignedTransaction

/-! ### Blocks -/

namespace BlockHeader

/-- `BlockHeader::hash`: the signature is left out. -/
def hash (h : BlockHeader) : Blake3Hash :=
  P.blake3 (P.serializeHeader { h with validatorSignature := Signature.default })

def sign (h : BlockHeader) (k : KeyPair) : BlockHeader :=
  { h with validatorSignature := k.sign P (h.hash P).asBytes }

def verifySignature (h : BlockHeader) : Except CoreError Unit :=
  (h.validatorPubkey.verify P (h.hash P).asBytes h.validatorSignature).mapError .invalidSignature

def validateBasic (h : BlockHeader) : Except CoreError Unit := do
  if h.version ≠ protocolVersion then
    throw (.invalidBlock s!"unsupported version: {h.version}")
  if h.extraData.length > maxExtraDataSize then
    throw (.dataTooLarge maxExtraDataSize h.extraData.length)
  if h.gasUsed > h.gasLimit then throw (.gasLimitExceeded h.gasLimit h.gasUsed)
  if h.validatorPubkey.toAddress P ≠ h.validator then
    throw (.invalidBlock "validator address does not match public key")

theorem validateBasic_ok {h : BlockHeader} : h.validateBasic P = .ok () ↔
    h.version = protocolVersion ∧ h.extraData.length ≤ maxExtraDataSize ∧
      h.gasUsed ≤ h.gasLimit ∧ h.validatorPubkey.toAddress P = h.validator := by
  unfold validateBasic
  simp only [check_then_eq_ok, check_eq_ok, ne_eq, not_not, gt_iff_lt, Nat.not_lt]

/-- The header without its signature, which is what the hash is taken of. -/
def unsigned (h : BlockHeader) : BlockHeader := { h with validatorSignature := Signature.default }

/-- Blake3 over `bincode` has no collision among some headers. -/
def CollisionFree (headers : Set BlockHeader) : Prop :=
  ∀ h ∈ headers, ∀ h' ∈ headers, h.hash P = h'.hash P → h.unsigned = h'.unsigned

theorem collisionFree_of_unsigned {h h' : BlockHeader} (heq : h.unsigned = h'.unsigned) :
    CollisionFree P {h, h'} := by
  rintro a (rfl | rfl) b (rfl | rfl) -
  · rfl
  · exact heq
  · exact heq.symm
  · rfl

theorem collisionFree_of_hash_ne {h h' : BlockHeader} (hne : h.hash P ≠ h'.hash P) :
    CollisionFree P {h, h'} := by
  rintro a (rfl | rfl) b (rfl | rfl) heq
  · rfl
  · exact absurd heq hne
  · exact absurd heq.symm hne
  · rfl

end BlockHeader

namespace Block

def hash (b : Block) : Blake3Hash := b.header.hash P

def computeTransactionsRoot (b : Block) : Blake3Hash :=
  if b.transactions.isEmpty then Blake3Hash.zero
  else computeMerkleRoot P (b.transactions.map fun tx => tx.hash.asBytes)

/-- The signature checks of the transactions from index `i` on. -/
def verifyTransactions : ℕ → List SignedTransaction → Except CoreError Unit
  | _, [] => .ok ()
  | i, tx :: rest => do
    (tx.verify P).mapError fun e => .invalidBlock s!"invalid transaction {i}: {e.display}"
    verifyTransactions (i + 1) rest

def validateBasic (b : Block) : Except CoreError Unit := do
  b.header.validateBasic P
  if b.transactions.length > maxBlockTransactions then
    throw (.invalidBlock
      s!"too many transactions: {b.transactions.length} (max {maxBlockTransactions})")
  if b.computeTransactionsRoot P ≠ b.header.transactionsRoot then
    throw (.invalidBlock "transactions root mismatch")
  verifyTransactions P 0 b.transactions

theorem verifyTransactions_ok : ∀ {i : ℕ} {txs : List SignedTransaction},
    verifyTransactions P i txs = .ok () ↔ ∀ tx ∈ txs, tx.verify P = .ok ()
  | _, [] => by simp [verifyTransactions]
  | i, tx :: rest => by
    unfold verifyTransactions
    rw [bind_eq_ok, mapError_eq_ok, verifyTransactions_ok, List.forall_mem_cons]

theorem validateBasic_ok {b : Block} : b.validateBasic P = .ok () ↔
    b.header.validateBasic P = .ok () ∧ b.transactions.length ≤ maxBlockTransactions ∧
      b.computeTransactionsRoot P = b.header.transactionsRoot ∧
      ∀ tx ∈ b.transactions, tx.verify P = .ok () := by
  unfold validateBasic
  simp only [check_then_eq_ok, bind_eq_ok, verifyTransactions_ok, ne_eq, not_not, gt_iff_lt,
    Nat.not_lt]

def genesis (chainId : ℕ) (timestamp : ℕ) (validator : Address)
    (validatorPubkey : PublicKey) (gasLimit : ℕ) (extraData : Bytes) : Block where
  header :=
    { version := protocolVersion, chainId, number := 0, timestamp
      parentHash := Blake3Hash.zero, stateRoot := Blake3Hash.zero
      transactionsRoot := Blake3Hash.zero, receiptsRoot := Blake3Hash.zero
      validator, validatorPubkey, validatorSignature := Signature.default
      epoch := 0, gasUsed := 0, gasLimit, extraData }
  transactions := []

end Block

/-! ### Validators and epochs -/

structure ValidatorInfo where
  address : Address
  publicKey : PublicKey
  stake : ℕ
  isActive : Bool
  commissionRate : ℕ
  jailedUntil : Option ℕ
  slashCount : ℕ
  uptimeBlocks : ℕ
  totalBlocks : ℕ
  deriving DecidableEq, Repr

def ValidatorInfo.new (address : Address) (publicKey : PublicKey) (stake : ℕ) :
    ValidatorInfo :=
  ⟨address, publicKey, stake, true, 0, none, 0, 0, 0⟩

structure ValidatorSet where
  validators : List ValidatorInfo
  totalStake : ℕ
  minStake : ℕ
  maxValidators : ℕ
  deriving DecidableEq, Repr

/-- The sum `total_stake` caches: the stakes with `is_active` set. -/
def activeStakeSum (l : List ValidatorInfo) : Flagged ℕ :=
  sumU 128 ((l.filter (·.isActive)).map (·.stake))

/-- Apply `f` to the first element that satisfies `p`, as through `iter_mut().find(p)`. -/
def modifyFirst {α : Type} (p : α → Bool) (f : α → α) : List α → List α
  | [] => []
  | a :: l => if p a then f a :: l else a :: modifyFirst p f l

namespace ValidatorSet

def new (validators : List ValidatorInfo) (minStake : ℕ) (maxValidators : ℕ) :
    ValidatorSet :=
  ⟨validators, (activeStakeSum validators).val, minStake, maxValidators⟩

def activeValidators (s : ValidatorSet) : List ValidatorInfo :=
  s.validators.filter fun v => v.isActive && v.jailedUntil.isNone

def getValidator (s : ValidatorSet) (addr : Address) : Option ValidatorInfo :=
  s.validators.find? fun v => v.address = addr

/-- Write through `get_validator_mut`. -/
def modifyValidator (s : ValidatorSet) (addr : Address) (f : ValidatorInfo → ValidatorInfo) :
    ValidatorSet :=
  { s with validators := modifyFirst (fun v => decide (v.address = addr)) f s.validators }

def totalActiveStake (s : ValidatorSet) : Flagged ℕ :=
  sumU 128 (s.activeValidators.map (·.stake))

def isValidator (s : ValidatorSet) (addr : Address) : Bool :=
  s.activeValidators.any fun v => v.address = addr

/-- `(total * 2).div_ceil(3)`. -/
def quorumThreshold (s : ValidatorSet) : Flagged ℕ := do
  let total ← s.totalActiveStake
  let twice ← mulU 128 total 2
  return (twice + 2) / 3

def recalculateTotalStake (s : ValidatorSet) : Flagged ValidatorSet := do
  let t ← activeStakeSum s.validators
  return { s with totalStake := t }

end ValidatorSet

structure EpochInfo where
  epochNumber : ℕ
  startBlock : ℕ
  endBlock : ℕ
  validatorSet : ValidatorSet
  finalizedBlock : Option ℕ
  deriving DecidableEq, Repr

def EpochInfo.containsBlock (e : EpochInfo) (n : ℕ) : Bool :=
  decide (e.startBlock ≤ n) && decide (n ≤ e.endBlock)

def EpochInfo.isLastBlock (e : EpochInfo) (n : ℕ) : Bool := decide (n = e.endBlock)

/-! ### Genesis -/

structure ConsensusParams where
  blockTimeMs : ℕ
  epochLength : ℕ
  minValidators : ℕ
  maxValidators : ℕ
  slashFractionDoubleSign : ℕ
  slashFractionDowntime : ℕ
  downtimeJailDurationMs : ℕ
  minStake : ℕ
  unbondingPeriodEpochs : ℕ
  maxMissedBlocks : ℕ
  signedBlocksWindow : ℕ
  deriving DecidableEq, Repr

structure GenesisValidator where
  address : Address
  publicKey : PublicKey
  stake : ℕ
  deriving DecidableEq, Repr

structure GenesisAccount where
  address : Address
  balance : ℕ
  deriving DecidableEq, Repr

structure GenesisConfig where
  chainId : ℕ
  chainName : String
  timestamp : ℕ
  initialValidators : List GenesisValidator
  initialAccounts : List GenesisAccount
  consensusParams : ConsensusParams
  gasLimit : ℕ
  deriving DecidableEq, Repr

namespace GenesisConfig

def validateStakes (minStake : ℕ) : List GenesisValidator → Except CoreError Unit
  | [] => .ok ()
  | v :: rest =>
    if v.stake < minStake then
      .error (.genesis
        s!"validator {v.address.toHex} has insufficient stake: {v.stake} < {minStake}")
    else validateStakes minStake rest

def validate (g : GenesisConfig) : Except CoreError Unit := do
  if g.initialValidators.isEmpty then throw (.genesis "genesis must have at least one validator")
  let need := g.consensusParams.minValidators
  let got := g.initialValidators.length
  if got < need then throw (.genesis s!"need at least {need} validators, got {got}")
  validateStakes g.consensusParams.minStake g.initialValidators
  if g.gasLimit = 0 then throw (.genesis "gas limit must be > 0")

theorem validateStakes_ok {m : ℕ} : ∀ {l : List GenesisValidator},
    validateStakes m l = .ok () ↔ ∀ v ∈ l, m ≤ v.stake
  | [] => by simp [validateStakes]
  | v :: l => by
    have ih := validateStakes_ok (m := m) (l := l)
    unfold validateStakes
    rw [List.forall_mem_cons, ← ih]
    split_ifs with hlt
    · exact ⟨(nomatch ·), fun h => absurd hlt (Nat.not_lt.mpr h.1)⟩
    · exact ⟨fun h => ⟨Nat.not_lt.mp hlt, h⟩, fun h => h.2⟩

theorem validate_ok {g : GenesisConfig} : g.validate = .ok () ↔
    g.initialValidators ≠ [] ∧ g.consensusParams.minValidators ≤ g.initialValidators.length ∧
      (∀ v ∈ g.initialValidators, g.consensusParams.minStake ≤ v.stake) ∧ g.gasLimit ≠ 0 := by
  unfold validate
  simp only [check_then_eq_ok, bind_eq_ok, check_eq_ok, validateStakes_ok, Nat.not_lt,
    List.isEmpty_iff, ne_eq]

/-- `to_genesis_block`; there is no value where `initial_validators[0]` is out of bounds. -/
def toGenesisBlock (g : GenesisConfig) : Option Block :=
  g.initialValidators.head?.map fun first =>
    Block.genesis g.chainId g.timestamp first.address first.publicKey g.gasLimit
      (s!"rustchain genesis: {g.chainName}").toUTF8.data.toList

def toValidatorInfos (g : GenesisConfig) : List ValidatorInfo :=
  g.initialValidators.map fun gv => ValidatorInfo.new gv.address gv.publicKey gv.stake

end GenesisConfig

/-! ### Primitives that can be evaluated

Stand-ins for the third-party functions on which concrete runs are computed. The hash reads its
input as digits in base 257, so it has no collision on inputs of up to 31 bytes; a signature is the
key followed by the hash of the message. -/

namespace Small

def hash (l : Bytes) : Blake3Hash :=
  ⟨⟨⟨leBytes 256 (l.foldl (fun n b => n * 257 + b.toNat + 1) 0)⟩, by simp [length_leBytes]⟩⟩

def signature (key : Vector UInt8 32) (message : Bytes) : Signature :=
  ⟨⟨⟨key.toList ++ (hash message).asBytes⟩, by simp [Blake3Hash.asBytes]⟩⟩

def encodeHeader (h : BlockHeader) : Bytes :=
  leBytes 32 h.version ++ leBytes 64 h.chainId ++ leBytes 64 h.number ++ leBytes 64 h.timestamp ++
    h.parentHash.asBytes ++ h.stateRoot.asBytes ++ h.transactionsRoot.asBytes ++
    h.receiptsRoot.asBytes ++ h.validator.asBytes ++ h.validatorPubkey.asBytes ++
    h.validatorSignature.bytes.toList ++ leBytes 64 h.epoch ++ leBytes 64 h.gasUsed ++
    leBytes 64 h.gasLimit ++ leBytes 64 h.extraData.length ++ h.extraData

def encodeTransaction (t : Transaction) : Bytes :=
  leBytes 64 t.chainId ++ leBytes 64 t.nonce ++ t.sender.asBytes ++
    (match t.toAddr with | none => [0] | some a => 1 :: a.asBytes) ++ leBytes 128 t.value ++
    leBytes 32 t.txType.ctorIdx ++ leBytes 64 t.gasLimit ++ leBytes 64 t.gasPrice ++
    leBytes 64 t.data.length ++ t.data ++ leBytes 64 t.timestamp

end Small

def Primitives.small : Primitives where
  blake3 := Small.hash
  verifyingKey k := ⟨k.bytes⟩
  sign k := Small.signature k.bytes
  verify k m s := decide (s = Small.signature k.bytes m)
  serializeHeader := Small.encodeHeader
  serializeTransaction := Small.encodeTransaction
  genRange seed n := (seed.bytes.toList.foldl (fun m b => m * 256 + b.toNat) 0) % n

theorem Primitives.small_verify_sign {pk : PublicKey} {k : KeyPair} {m m' : Bytes}
    (h : small.verify pk m' (k.sign small m) = true) : pk = k.publicKey small := by
  have hsig : Small.signature k.signingKey.bytes m = Small.signature pk.bytes m' :=
    of_decide_eq_true h
  have hlist := congrArg (fun s : Signature => s.bytes.toList) hsig
  have hbytes := Vector.toList_inj.mp (List.append_inj hlist (by simp)).1
  exact congrArg PublicKey.mk hbytes.symm

/-- The key pair whose secret key is the byte `b` repeated. -/
def KeyPair.small (b : UInt8) : KeyPair := ⟨⟨Vector.replicate 32 b⟩⟩

end Rustchain.Core
