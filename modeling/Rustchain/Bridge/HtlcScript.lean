import Mathlib.Algebra.Order.Ring.Nat
import Rustchain.Core.Types
import Rustchain.Lib.BitcoinScript

/-! # The Bitcoin script of a swap

`build_htlc_script` of the Bitcoin adapter writes a script byte by byte. With public keys of a
standard length the script is read as the documented instructions, for every timelock
(`parse_buildHtlcScript`). The timelock is pushed as four bytes though, whose highest bit Bitcoin
takes for a sign: from `2 ^ 31` on the pushed number is another one
(`documented_script_iff`). -/

namespace Rustchain.Bridge

open Rustchain.Core Lib.BitcoinScript

/-- `BitcoinAdapter::build_htlc_script`. The lengths of the keys are cast to `u8`. -/
def buildHtlcScript (hashLock : Vector UInt8 32) (recipientPubkey senderPubkey : Bytes)
    (timelock : ℕ) : Bytes :=
  -- OP_IF OP_SHA256 <hash_lock> OP_EQUALVERIFY
  [0x63] ++ [0xa8] ++ [0x20] ++ hashLock.toList ++ [0x88] ++
  -- <recipient_pubkey> OP_CHECKSIG
  [UInt8.ofNat recipientPubkey.length] ++ recipientPubkey ++ [0xac] ++
  -- OP_ELSE <timelock> OP_CHECKLOCKTIMEVERIFY OP_DROP
  [0x67] ++ [0x04] ++ leBytes 32 timelock ++ [0xb1] ++ [0x75] ++
  -- <sender_pubkey> OP_CHECKSIG OP_ENDIF
  [UInt8.ofNat senderPubkey.length] ++ senderPubkey ++ [0xac] ++ [0x68]

/-- The documented instructions; `lock` is the pushed timelock. -/
def htlcInstrs (hashLock recipientPubkey lock senderPubkey : Bytes) : List Instr :=
  [opIf,
    opSha256, .push hashLock, opEqualVerify,
    .push recipientPubkey, opCheckSig,
  opElse,
    .push lock, opCheckLockTimeVerify, opDrop,
    .push senderPubkey, opCheckSig,
  opEndIf]

/-- A public key is 33 bytes compressed and 65 bytes uncompressed. -/
def StandardKey (key : Bytes) : Prop := key.length = 33 ∨ key.length = 65

instance : DecidablePred StandardKey := fun key =>
  inferInstanceAs (Decidable (key.length = 33 ∨ key.length = 65))

theorem StandardKey.direct {key : Bytes} (h : StandardKey key) : (Instr.push key).Direct := by
  show key.length ≤ 0x4b
  rcases h with h | h <;> omega

theorem buildHtlcScript_eq_flatMap (hashLock : Vector UInt8 32)
    (recipientPubkey senderPubkey : Bytes) (timelock : ℕ) :
    buildHtlcScript hashLock recipientPubkey senderPubkey timelock =
      (htlcInstrs hashLock.toList recipientPubkey (leBytes 32 timelock) senderPubkey).flatMap
        Instr.bytes := by
  have hhash : UInt8.ofNat hashLock.toList.length = 0x20 := by rw [Vector.length_toList]; rfl
  have hlock : UInt8.ofNat (leBytes 32 timelock).length = 0x04 := by rw [length_leBytes]; rfl
  simp only [buildHtlcScript, htlcInstrs, opIf, opSha256, opEqualVerify, opCheckSig, opElse,
    opCheckLockTimeVerify, opDrop, opEndIf, List.flatMap_cons, List.flatMap_nil, Instr.bytes, hhash,
    hlock, List.cons_append, List.nil_append, List.append_nil, List.append_assoc]

theorem parse_buildHtlcScript (hashLock : Vector UInt8 32) {recipientPubkey senderPubkey : Bytes}
    (hrecipient : StandardKey recipientPubkey) (hsender : StandardKey senderPubkey) (timelock : ℕ) :
    parse (buildHtlcScript hashLock recipientPubkey senderPubkey timelock) =
      some (htlcInstrs hashLock.toList recipientPubkey (leBytes 32 timelock) senderPubkey) := by
  rw [buildHtlcScript_eq_flatMap]
  refine parse_flatMap_bytes fun i hi => ?_
  have hhash : (Instr.push hashLock.toList).Direct := by
    show hashLock.toList.length ≤ 0x4b
    rw [Vector.length_toList]
    decide
  have hlock : (Instr.push (leBytes 32 timelock)).Direct := by
    show (leBytes 32 timelock).length ≤ 0x4b
    rw [length_leBytes]
    decide
  simp only [htlcInstrs, List.mem_cons, List.not_mem_nil, or_false] at hi
  rcases hi with rfl | rfl | rfl | rfl | rfl | rfl | rfl | rfl | rfl | rfl | rfl | rfl | rfl
  case inr.inr.inl => exact hhash
  case inr.inr.inr.inr.inl => exact hrecipient.direct
  case inr.inr.inr.inr.inr.inr.inr.inl => exact hlock
  case inr.inr.inr.inr.inr.inr.inr.inr.inr.inr.inl => exact hsender.direct
  all_goals decide

theorem unsigned_eq_ofLeBytes (l : Bytes) : unsigned l = ofLeBytes l := by
  induction l with
  | nil => rfl
  | cons b l ih =>
    rw [ofLeBytes, ← ih]
    rfl

theorem number_leBytes_eq_iff {timelock : ℕ} (h : timelock < 2 ^ 32) :
    number (leBytes 32 timelock) = timelock ↔ timelock < 2 ^ 31 := by
  have hvalue : unsigned (leBytes 32 timelock) = timelock := by
    rw [unsigned_eq_ofLeBytes, ofLeBytes_leBytes]
    exact Nat.mod_eq_of_lt h
  have hiff := number_eq_unsigned_iff (l := leBytes 32 timelock)
  rwa [hvalue, length_leBytes] at hiff

/-- **The script of a swap is the documented one**, with the timelock as its pushed number, if and
only if the timelock is less than `2 ^ 31`. -/
theorem documented_script_iff (hashLock : Vector UInt8 32) {recipientPubkey senderPubkey : Bytes}
    (hrecipient : StandardKey recipientPubkey) (hsender : StandardKey senderPubkey) {timelock : ℕ}
    (htimelock : timelock < 2 ^ 32) :
    (∃ lock, parse (buildHtlcScript hashLock recipientPubkey senderPubkey timelock) =
        some (htlcInstrs hashLock.toList recipientPubkey lock senderPubkey) ∧
      number lock = timelock) ↔ timelock < 2 ^ 31 := by
  rw [parse_buildHtlcScript hashLock hrecipient hsender timelock,
    ← number_leBytes_eq_iff htimelock]
  constructor
  · rintro ⟨lock, hparse, hnumber⟩
    simp only [htlcInstrs, Option.some.injEq, List.cons.injEq, Instr.push.injEq, true_and,
      and_true] at hparse
    rw [hparse, hnumber]
  · exact fun hnumber => ⟨_, rfl, hnumber⟩

/-- A swap that ends in the year 2030 has the documented script. -/
theorem script_of_2030 :
    ∃ lock, parse (buildHtlcScript (Vector.replicate 32 7) (List.replicate 33 2)
        (List.replicate 65 4) 1893456000) =
      some (htlcInstrs (List.replicate 32 7) (List.replicate 33 2) lock (List.replicate 65 4)) ∧
      number lock = 1893456000 :=
  (documented_script_iff (Vector.replicate 32 7) (by decide) (by decide) (by decide)).mpr
    (by decide)

/-- A swap that ends after January 2038 has a script whose pushed number is another one: `2 ^ 31`
is pushed as zero. -/
theorem script_of_2038 :
    parse (buildHtlcScript (Vector.replicate 32 7) (List.replicate 33 2) (List.replicate 65 4)
        (2 ^ 31)) =
      some (htlcInstrs (List.replicate 32 7) (List.replicate 33 2) [0, 0, 0, 0x80]
        (List.replicate 65 4)) ∧ number [0, 0, 0, 0x80] = 0 :=
  ⟨parse_buildHtlcScript (Vector.replicate 32 7) (by decide) (by decide) (2 ^ 31), by decide⟩

end Rustchain.Bridge
