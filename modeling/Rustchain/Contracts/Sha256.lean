import Rustchain.Lib.Sha256
import Rustchain.Core.Types

/-! # The hash function of the bridge contract

`simple_sha256`, the contract's own implementation, with its table of constants and its loops. It is
SHA-256. -/

namespace Rustchain.Contracts

open Rustchain.Core Lib.Sha256

/-- The table `K`. -/
def sha256K : List UInt32 :=
  [0x428a2f98, 0x71374491, 0xb5c0fbcf, 0xe9b5dba5, 0x3956c25b, 0x59f111f1, 0x923f82a4, 0xab1c5ed5,
    0xd807aa98, 0x12835b01, 0x243185be, 0x550c7dc3, 0x72be5d74, 0x80deb1fe, 0x9bdc06a7, 0xc19bf174,
    0xe49b69c1, 0xefbe4786, 0x0fc19dc6, 0x240ca1cc, 0x2de92c6f, 0x4a7484aa, 0x5cb0a9dc, 0x76f988da,
    0x983e5152, 0xa831c66d, 0xb00327c8, 0xbf597fc7, 0xc6e00bf3, 0xd5a79147, 0x06ca6351, 0x14292967,
    0x27b70a85, 0x2e1b2138, 0x4d2c6dfc, 0x53380d13, 0x650a7354, 0x766a0abb, 0x81c2c92e, 0x92722c85,
    0xa2bfe8a1, 0xa81a664b, 0xc24b8b70, 0xc76c51a3, 0xd192e819, 0xd6990624, 0xf40e3585, 0x106aa070,
    0x19a4c116, 0x1e376c08, 0x2748774c, 0x34b0bcb5, 0x391c0cb3, 0x4ed8aa4a, 0x5b9cca4f, 0x682e6ff3,
    0x748f82ee, 0x78a5636f, 0x84c87814, 0x8cc70208, 0x90befffa, 0xa4506ceb, 0xbef9a3f7, 0xc67178f2]

/-- The start value of `h`. -/
def sha256H : Words :=
  ⟨0x6a09e667, 0xbb67ae85, 0x3c6ef372, 0xa54ff53a, 0x510e527f, 0x9b05688c, 0x1f83d9ab, 0x5be0cd19⟩

/-- The `while` loop that pushes zeros; `fuel` bounds its turns. -/
def pushZeros : ℕ → Bytes → Bytes
  | 0, padded => padded
  | fuel + 1, padded =>
    if padded.length % 64 ≠ 56 then pushZeros fuel (padded ++ [0]) else padded

/-- The padding. The length in bits is a `u64`. -/
def sha256Padded (data : Bytes) : Bytes :=
  let bitLen := data.length * 8 % 2 ^ 64
  pushZeros 64 (data ++ [0x80]) ++ beBytes 8 bitLen

/-- `padded.chunks(64)`. -/
def chunks64 (l : Bytes) : List Bytes :=
  (List.range ((l.length + 63) / 64)).map fun i => (l.drop (64 * i)).take 64

/-- The array `w` for a chunk, filled by the two loops. -/
def sha256Schedule (chunk : Bytes) : List UInt32 :=
  let w := (List.range' 0 16).foldl (fun w i => w.set i (wordAt chunk (i * 4)))
    (List.replicate 64 0)
  (List.range' 16 48).foldl (fun w i =>
    let w15 := w.getD (i - 15) 0
    let w2 := w.getD (i - 2) 0
    let s0 := rotr 7 w15 ^^^ rotr 18 w15 ^^^ w15 >>> 3
    let s1 := rotr 17 w2 ^^^ rotr 19 w2 ^^^ w2 >>> 10
    w.set i (w.getD (i - 16) 0 + s0 + w.getD (i - 7) 0 + s1)) w

/-- One turn of the main loop on the variables `a` to `hh`. -/
def sha256Round (w : List UInt32) (x : Words) (i : ℕ) : Words :=
  let s1 := rotr 6 x.e ^^^ rotr 11 x.e ^^^ rotr 25 x.e
  let ch := (x.e &&& x.f) ^^^ (~~~x.e &&& x.g)
  let temp1 := x.h + s1 + ch + sha256K.getD i 0 + w.getD i 0
  let s0 := rotr 2 x.a ^^^ rotr 13 x.a ^^^ rotr 22 x.a
  let maj := (x.a &&& x.b) ^^^ (x.a &&& x.c) ^^^ (x.b &&& x.c)
  let temp2 := s0 + maj
  ⟨temp1 + temp2, x.a, x.b, x.c, x.d + temp1, x.e, x.f, x.g⟩

/-- What a chunk does to `h`. -/
def sha256Chunk (h : Words) (chunk : Bytes) : Words :=
  h.add ((List.range 64).foldl (sha256Round (sha256Schedule chunk)) h)

/-- **`simple_sha256`.** -/
def simpleSha256 (data : Bytes) : Bytes :=
  ((chunks64 (sha256Padded data)).foldl sha256Chunk sha256H).bytes

/-! ### It is SHA-256 -/

theorem sha256K_getD : ∀ t < 64, sha256K.getD t 0 = k t := by decide +kernel

theorem sha256H_eq : sha256H = initial := by decide +kernel

theorem pushZeros_eq (fuel : ℕ) (l : Bytes) (h : (120 - l.length % 64) % 64 ≤ fuel) :
    pushZeros fuel l = l ++ List.replicate ((120 - l.length % 64) % 64) 0 := by
  induction fuel generalizing l with
  | zero =>
    have h0 : (120 - l.length % 64) % 64 = 0 := by omega
    rw [h0, List.replicate_zero, List.append_nil]
    rfl
  | succ fuel ih =>
    unfold pushZeros
    split_ifs with hl
    · have hstep : (120 - l.length % 64) % 64 = (120 - (l ++ [0]).length % 64) % 64 + 1 := by
        rw [List.length_append, List.length_singleton]
        omega
      rw [ih (l ++ [0]) (by omega), hstep, List.replicate_succ, List.append_assoc,
        List.singleton_append]
    · have h0 : (120 - l.length % 64) % 64 = 0 := by omega
      rw [h0, List.replicate_zero, List.append_nil]

theorem beBytes_mod (v : ℕ) : beBytes 8 (v % 2 ^ 64) = beBytes 8 v := by
  unfold beBytes
  congr 1
  refine List.map_congr_left fun i hi => ?_
  have hi : i < 8 := List.mem_range.mp hi
  have hpow : (2 : ℕ) ^ 64 = 256 ^ i * (256 * 256 ^ (7 - i)) := by
    rw [← Nat.pow_succ', ← Nat.pow_add, show i + (7 - i).succ = 8 by omega]
    decide
  rw [hpow, Nat.mod_mul_right_div_self, Nat.mod_mul_right_mod]

theorem sha256Padded_eq (data : Bytes) : sha256Padded data = pad data := by
  have hzeros : (120 - (data ++ [0x80]).length % 64) % 64 = zeros data.length := by
    rw [List.length_append, List.length_singleton, zeros]
    omega
  unfold sha256Padded pad
  dsimp only
  rw [pushZeros_eq 64 _ (by omega), hzeros, beBytes_mod, Nat.mul_comm, List.append_assoc,
    List.append_assoc, List.singleton_append]

theorem getD_chunk (l : Bytes) {i j : ℕ} (hj : j < 64) :
    ((l.drop (64 * i)).take 64).getD j 0 = l.getD (64 * i + j) 0 := by
  rw [List.getD_eq_getElem?_getD, List.getElem?_take_of_lt hj, List.getElem?_drop,
    List.getD_eq_getElem?_getD]

theorem wordAt_chunk (l : Bytes) {i t : ℕ} (ht : t < 16) :
    wordAt ((l.drop (64 * i)).take 64) (t * 4) = blockWord l i t := by
  unfold blockWord wordAt
  rw [getD_chunk l (by omega), getD_chunk l (by omega), getD_chunk l (by omega),
    getD_chunk l (by omega), Nat.mul_comm t 4]
  rfl

theorem getD_sha256Schedule {chunk : Bytes} {m : ℕ → UInt32}
    (hm : ∀ t < 16, wordAt chunk (t * 4) = m t) :
    ∀ t < 64, (sha256Schedule chunk).getD t 0 = schedule m t := by
  have hlow : ∀ t < 16, schedule m t = m t := by
    intro t ht
    rw [schedule, if_pos ht]
  obtain ⟨hlen, hfirst⟩ := getD_foldl_set (d := (0 : UInt32)) (W := schedule m)
    (f := fun _ i => wordAt chunk (i * 4)) (L := 64) 16 0 (List.replicate 64 0) (by omega)
    (by simp) (fun j hj => absurd hj (Nat.not_lt_zero j)) fun i u _ hi _ _ => by
      rw [hm i (by omega), hlow i (by omega)]
  obtain ⟨-, hall⟩ := getD_foldl_set (d := (0 : UInt32)) (W := schedule m)
    (f := fun w i =>
      let w15 := w.getD (i - 15) 0
      let w2 := w.getD (i - 2) 0
      let s0 := rotr 7 w15 ^^^ rotr 18 w15 ^^^ w15 >>> 3
      let s1 := rotr 17 w2 ^^^ rotr 19 w2 ^^^ w2 >>> 10
      w.getD (i - 16) 0 + s0 + w.getD (i - 7) 0 + s1) (L := 64) 48 16 _ (by omega) hlen hfirst
    fun i u hi hi' _ hu => by
      have hrec : schedule m i = smallSigma1 (schedule m (i - 2)) + schedule m (i - 7) +
          smallSigma0 (schedule m (i - 15)) + schedule m (i - 16) := by
        rw [schedule, if_neg (by omega)]
      dsimp only
      rw [hu (i - 15) (by omega), hu (i - 2) (by omega), hu (i - 16) (by omega),
        hu (i - 7) (by omega), hrec]
      unfold smallSigma0 smallSigma1
      ac_rfl
  exact hall

theorem sha256Chunk_eq (h : Words) {chunk : Bytes} {m : ℕ → UInt32}
    (hm : ∀ t < 16, wordAt chunk (t * 4) = m t) : sha256Chunk h chunk = compress h m := by
  have hround : ∀ x, ∀ t ∈ List.range 64,
      sha256Round (sha256Schedule chunk) x t = Lib.Sha256.round (k t) (schedule m t) x := by
    intro x t ht
    have ht : t < 64 := List.mem_range.mp ht
    unfold sha256Round
    rw [sha256K_getD t ht, getD_sha256Schedule hm t ht]
    rfl
  unfold sha256Chunk compress
  rw [List.foldl_ext _ _ h hround]

theorem simpleSha256_eq (data : Bytes) : simpleSha256 data = sha256 data := by
  have hlen : ((pad data).length + 63) / 64 = (pad data).length / 64 := by
    have := length_pad_mod data
    omega
  have hchunk : ∀ h, ∀ i ∈ List.range ((pad data).length / 64),
      sha256Chunk h (((pad data).drop (64 * i)).take 64) = compress h (blockWord (pad data) i) :=
    fun h i _ => sha256Chunk_eq h fun t ht => wordAt_chunk _ ht
  unfold simpleSha256 sha256 digest chunks64
  rw [sha256Padded_eq, hlen, List.foldl_map, sha256H_eq, List.foldl_ext _ _ initial hchunk]

/-- The test vector of the source. -/
example : (simpleSha256 [97, 98, 99]).take 4 = [0xba, 0x78, 0x16, 0xbf] := by decide +kernel

end Rustchain.Contracts
