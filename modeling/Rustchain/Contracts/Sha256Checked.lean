import Rustchain.Contracts.SwapAgreement
import Rustchain.Lib.Partial

/-! # The bounds of the contract's hash function

`simple_sha256` once more, with every access to a slice or an array checked, the turns of the
padding loop counted and the length in bits computed in `u64`. On every message that SHA-256 is
defined for, nothing of this fails, and the digest is the one of the standard
(`checkedSha256_eq`). -/

namespace Rustchain.Contracts

open Rustchain.Core Lib.Machine Lib.Partial Lib.Sha256

/-- The `while` loop that pushes zeros; `none` if it is not done after `fuel` turns. -/
def checkedZeros : ℕ → Bytes → Option Bytes
  | 0, padded => if padded.length % 64 ≠ 56 then none else some padded
  | fuel + 1, padded =>
    if padded.length % 64 ≠ 56 then checkedZeros fuel (padded ++ [0]) else some padded

/-- The padding; `none` also if the length in bits is no `u64`. -/
def checkedPadded (data : Bytes) : Option Bytes := do
  let bitLen := mulU 64 data.length 8
  if bitLen.ovf then none
  else
    let padded ← checkedZeros 64 (data ++ [0x80])
    return padded ++ beBytes 8 bitLen.val

/-- `u32::from_be_bytes` of the four bytes of a chunk from `i` on. -/
def checkedWord (chunk : Bytes) (i : ℕ) : Option UInt32 := do
  let b0 ← chunk[i]?
  let b1 ← chunk[i + 1]?
  let b2 ← chunk[i + 2]?
  let b3 ← chunk[i + 3]?
  return UInt32.ofNat
    (b0.toNat * 2 ^ 24 + b1.toNat * 2 ^ 16 + b2.toNat * 2 ^ 8 + b3.toNat)

/-- An assignment `w[i] = x`. -/
def setAt (w : List UInt32) (i : ℕ) (x : UInt32) : Option (List UInt32) :=
  if i < w.length then some (w.set i x) else none

def checkedFill (chunk : Bytes) (w : List UInt32) (i : ℕ) : Option (List UInt32) := do
  let x ← checkedWord chunk (i * 4)
  setAt w i x

/-- One turn of the loop that extends the schedule. -/
def checkedExtend (w : List UInt32) (i : ℕ) : Option (List UInt32) := do
  let w15 ← w[i - 15]?
  let w2 ← w[i - 2]?
  let w16 ← w[i - 16]?
  let w7 ← w[i - 7]?
  let s0 := rotr 7 w15 ^^^ rotr 18 w15 ^^^ w15 >>> 3
  let s1 := rotr 17 w2 ^^^ rotr 19 w2 ^^^ w2 >>> 10
  setAt w i (w16 + s0 + w7 + s1)

/-- The array `w` for a chunk. -/
def checkedSchedule (chunk : Bytes) : Option (List UInt32) := do
  let w ← (List.range' 0 16).foldlM (checkedFill chunk) (List.replicate 64 0)
  (List.range' 16 48).foldlM checkedExtend w

def checkedRound (w : List UInt32) (x : Words) (i : ℕ) : Option Words := do
  let s1 := rotr 6 x.e ^^^ rotr 11 x.e ^^^ rotr 25 x.e
  let ch := (x.e &&& x.f) ^^^ (~~~x.e &&& x.g)
  let ki ← sha256K[i]?
  let wi ← w[i]?
  let temp1 := x.h + s1 + ch + ki + wi
  let s0 := rotr 2 x.a ^^^ rotr 13 x.a ^^^ rotr 22 x.a
  let maj := (x.a &&& x.b) ^^^ (x.a &&& x.c) ^^^ (x.b &&& x.c)
  let temp2 := s0 + maj
  return ⟨temp1 + temp2, x.a, x.b, x.c, x.d + temp1, x.e, x.f, x.g⟩

/-- What a chunk does to `h`. -/
def checkedChunk (h : Words) (chunk : Bytes) : Option Words := do
  let w ← checkedSchedule chunk
  let x ← (List.range 64).foldlM (checkedRound w) h
  return h.add x

/-- **`simple_sha256`**; `none` is an access out of bounds, an overflow or a loop that goes on. -/
def checkedSha256 (data : Bytes) : Option Bytes := do
  let padded ← checkedPadded data
  let h ← (chunks64 padded).foldlM checkedChunk sha256H
  return h.bytes

/-! ### Nothing fails -/

theorem checkedZeros_eq (fuel : ℕ) (l : Bytes) (h : (120 - l.length % 64) % 64 ≤ fuel) :
    checkedZeros fuel l = some (pushZeros fuel l) := by
  induction fuel generalizing l with
  | zero => exact if_neg (by omega)
  | succ fuel ih =>
    unfold checkedZeros pushZeros
    split_ifs with hl
    · refine ih (l ++ [0]) ?_
      rw [List.length_append, List.length_singleton]
      omega
    · rfl

theorem checkedPadded_eq {data : Bytes} (h : data.length < 2 ^ 61) :
    checkedPadded data = some (pad data) := by
  have hovf : (mulU 64 data.length 8).ovf = false := mulU_ovf.mpr (by omega)
  unfold checkedPadded
  dsimp only
  rw [hovf, checkedZeros_eq 64 _ (by omega), ← sha256Padded_eq]
  rfl

theorem getElem?_eq_getD {α : Type} {l : List α} {i : ℕ} (d : α) (h : i < l.length) :
    l[i]? = some (l.getD i d) := by
  rw [List.getD_eq_getElem?_getD, List.getElem?_eq_getElem h, Option.getD_some]

theorem checkedWord_eq {chunk : Bytes} {i : ℕ} (h : i + 3 < chunk.length) :
    checkedWord chunk i = some (wordAt chunk i) := by
  unfold checkedWord wordAt
  rw [getElem?_eq_getD 0 (show i < chunk.length by omega),
    getElem?_eq_getD 0 (show i + 1 < chunk.length by omega),
    getElem?_eq_getD 0 (show i + 2 < chunk.length by omega), getElem?_eq_getD 0 h]
  rfl

theorem setAt_eq {w : List UInt32} {i : ℕ} (x : UInt32) (hw : w.length = 64) (hi : i < 64) :
    setAt w i x = some (w.set i x) ∧ (w.set i x).length = 64 :=
  ⟨if_pos (by omega), by rw [List.length_set, hw]⟩

theorem checkedFill_eq {chunk w : List _} {i : ℕ} (hc : chunk.length = 64) (hw : w.length = 64)
    (hi : i < 16) : checkedFill chunk w i = some (w.set i (wordAt chunk (i * 4))) ∧
      (w.set i (wordAt chunk (i * 4))).length = 64 := by
  unfold checkedFill
  rw [checkedWord_eq (by omega)]
  exact setAt_eq _ hw (by omega)

theorem checkedExtend_eq {w : List UInt32} {i : ℕ} (hw : w.length = 64) (hi : 16 ≤ i ∧ i < 64) :
    checkedExtend w i = some (
      let w15 := w.getD (i - 15) 0
      let w2 := w.getD (i - 2) 0
      let s0 := rotr 7 w15 ^^^ rotr 18 w15 ^^^ w15 >>> 3
      let s1 := rotr 17 w2 ^^^ rotr 19 w2 ^^^ w2 >>> 10
      w.set i (w.getD (i - 16) 0 + s0 + w.getD (i - 7) 0 + s1)) := by
  unfold checkedExtend
  rw [getElem?_eq_getD 0 (show i - 15 < w.length by omega),
    getElem?_eq_getD 0 (show i - 2 < w.length by omega),
    getElem?_eq_getD 0 (show i - 16 < w.length by omega),
    getElem?_eq_getD 0 (show i - 7 < w.length by omega)]
  exact (setAt_eq _ hw hi.2).1

theorem checkedSchedule_eq {chunk : Bytes} (h : chunk.length = 64) :
    checkedSchedule chunk = some (sha256Schedule chunk) ∧ (sha256Schedule chunk).length = 64 := by
  obtain ⟨hfirst, hlen⟩ := foldlM_eq_some (I := fun w : List UInt32 => w.length = 64)
    (g := checkedFill chunk) (f := fun w i => w.set i (wordAt chunk (i * 4)))
    (l := List.range' 0 16) (b := List.replicate 64 0) (List.length_replicate ..)
    fun w i hi hw => checkedFill_eq h hw (by simpa using hi)
  obtain ⟨hrest, hlen'⟩ := foldlM_eq_some (I := fun w : List UInt32 => w.length = 64)
    (g := checkedExtend)
    (f := fun w i =>
      let w15 := w.getD (i - 15) 0
      let w2 := w.getD (i - 2) 0
      let s0 := rotr 7 w15 ^^^ rotr 18 w15 ^^^ w15 >>> 3
      let s1 := rotr 17 w2 ^^^ rotr 19 w2 ^^^ w2 >>> 10
      w.set i (w.getD (i - 16) 0 + s0 + w.getD (i - 7) 0 + s1))
    (l := List.range' 16 48) hlen fun w i hi hw =>
      ⟨checkedExtend_eq hw (by simpa using hi), (List.length_set ..).trans hw⟩
  unfold checkedSchedule sha256Schedule
  rw [hfirst, Option.bind_eq_bind, Option.bind_some]
  exact ⟨hrest, hlen'⟩

theorem checkedRound_eq {w : List UInt32} (hw : w.length = 64) (x : Words) {i : ℕ} (hi : i < 64) :
    checkedRound w x i = some (sha256Round w x i) := by
  unfold checkedRound sha256Round
  rw [getElem?_eq_getD 0 (show i < sha256K.length from hi), getElem?_eq_getD 0 (hw ▸ hi)]
  rfl

theorem checkedChunk_eq (h : Words) {chunk : Bytes} (hlen : chunk.length = 64) :
    checkedChunk h chunk = some (sha256Chunk h chunk) := by
  obtain ⟨hw, hlength⟩ := checkedSchedule_eq hlen
  have hrounds := (foldlM_eq_some (I := fun _ : Words => True)
    (f := sha256Round (sha256Schedule chunk)) (l := List.range 64) (b := h) trivial
    fun x i hi _ => ⟨checkedRound_eq hlength x (List.mem_range.mp hi), trivial⟩).1
  unfold checkedChunk sha256Chunk
  simp only [hw, hrounds, Option.bind_eq_bind, Option.bind_some, Option.pure_def]

theorem length_of_mem_chunks64 {l chunk : Bytes} (hl : l.length % 64 = 0)
    (h : chunk ∈ chunks64 l) : chunk.length = 64 := by
  obtain ⟨i, hi, rfl⟩ := List.mem_map.mp h
  have hi := List.mem_range.mp hi
  rw [List.length_take, List.length_drop]
  omega

/-- **The contract's hash function is SHA-256**: on every message of less than `2 ^ 61` bytes the
padding ends with whole blocks, no access is out of bounds, and the digest is the one of the
standard, which is also what `HtlcManager::hash_secret` computes. -/
theorem checkedSha256_eq {data : Bytes} (h : data.length < 2 ^ 61) :
    (∃ padded, checkedPadded data = some padded ∧ padded.length % 64 = 0) ∧
      checkedSha256 data = some (sha256 data) ∧
      checkedSha256 data = some (Bridge.hashSecret data).toList := by
  have hpad := checkedPadded_eq h
  have hchunks := (foldlM_eq_some (I := fun _ : Words => True) (g := checkedChunk)
    (f := sha256Chunk) (l := chunks64 (pad data)) (b := sha256H) trivial fun x chunk hc _ =>
      ⟨checkedChunk_eq x (length_of_mem_chunks64 (length_pad_mod data) hc), trivial⟩).1
  have hsha : checkedSha256 data = some (sha256 data) := by
    rw [← simpleSha256_eq]
    unfold checkedSha256 simpleSha256
    simp only [hpad, hchunks, sha256Padded_eq, Option.bind_eq_bind, Option.bind_some,
      Option.pure_def]
  refine ⟨⟨pad data, hpad, length_pad_mod data⟩, hsha, ?_⟩
  rw [hsha]
  simp [Bridge.hashSecret, Vector.toList]

/-- A message that fills the first block up to the length field, so that the padding takes another
block. -/
theorem checkedSha256_56 : (List.replicate 56 (7 : UInt8)).length < 2 ^ 61 ∧
    checkedSha256 (List.replicate 56 7) = some (sha256 (List.replicate 56 7)) :=
  ⟨by decide, (checkedSha256_eq (by decide)).2.1⟩

end Rustchain.Contracts
