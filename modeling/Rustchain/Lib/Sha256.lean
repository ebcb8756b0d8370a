import Mathlib.Algebra.Ring.Nat
import Mathlib.Data.Nat.Sqrt
import Mathlib.Data.List.Basic

/-! # SHA-256

The hash function of FIPS 180-4, with its constants as the standard explains them: the first 32 bits
of the fractional parts of the cube roots of the first 64 primes, and of the square roots of the
first eight. -/

namespace Rustchain.Lib.Sha256

/-! ### Words -/

def rotr (n : ℕ) (x : UInt32) : UInt32 := ⟨x.toBitVec.rotateRight n⟩

def ch (x y z : UInt32) : UInt32 := (x &&& y) ^^^ (~~~x &&& z)

def maj (x y z : UInt32) : UInt32 := (x &&& y) ^^^ (x &&& z) ^^^ (y &&& z)

/-- `Σ₀`. -/
def bigSigma0 (x : UInt32) : UInt32 := rotr 2 x ^^^ rotr 13 x ^^^ rotr 22 x

/-- `Σ₁`. -/
def bigSigma1 (x : UInt32) : UInt32 := rotr 6 x ^^^ rotr 11 x ^^^ rotr 25 x

/-- `σ₀`. -/
def smallSigma0 (x : UInt32) : UInt32 := rotr 7 x ^^^ rotr 18 x ^^^ x >>> 3

/-- `σ₁`. -/
def smallSigma1 (x : UInt32) : UInt32 := rotr 17 x ^^^ rotr 19 x ^^^ x >>> 10

/-! ### Constants -/

def primes : List ℕ :=
  [2, 3, 5, 7, 11, 13, 17, 19, 23, 29, 31, 37, 41, 43, 47, 53, 59, 61, 67, 71, 73, 79, 83, 89, 97,
    101, 103, 107, 109, 113, 127, 131, 137, 139, 149, 151, 157, 163, 167, 173, 179, 181, 191, 193,
    197, 199, 211, 223, 227, 229, 233, 239, 241, 251, 257, 263, 269, 271, 277, 281, 283, 293, 307,
    311]

/-- The largest number below `2 ^ k` whose cube is at most `n`, bit by bit from the top. -/
def cbrt (n : ℕ) : ℕ → ℕ → ℕ
  | 0, r => r
  | k + 1, r => cbrt n k (if (r + 2 ^ k) ^ 3 ≤ n then r + 2 ^ k else r)

/-- The first 32 bits of the fractional part of the cube root of `p`. -/
def cubeRootBits (p : ℕ) : UInt32 := UInt32.ofNat (cbrt (p * 2 ^ 96) 36 0)

/-- The first 32 bits of the fractional part of the square root of `p`. -/
def squareRootBits (p : ℕ) : UInt32 := UInt32.ofNat (Nat.sqrt (p * 2 ^ 64))

def k (t : ℕ) : UInt32 := cubeRootBits (primes.getD t 0)

/-! ### Blocks -/

/-- The eight words that are carried from round to round and from block to block. -/
structure Words where
  (a b c d e f g h : UInt32)
  deriving DecidableEq, Repr

def Words.add (x y : Words) : Words :=
  ⟨x.a + y.a, x.b + y.b, x.c + y.c, x.d + y.d, x.e + y.e, x.f + y.f, x.g + y.g, x.h + y.h⟩

def initial : Words :=
  ⟨squareRootBits 2, squareRootBits 3, squareRootBits 5, squareRootBits 7, squareRootBits 11,
    squareRootBits 13, squareRootBits 17, squareRootBits 19⟩

/-- The message schedule, from the sixteen words of a block. -/
def schedule (m : ℕ → UInt32) (t : ℕ) : UInt32 :=
  if t < 16 then m t
  else
    smallSigma1 (schedule m (t - 2)) + schedule m (t - 7) + smallSigma0 (schedule m (t - 15)) +
      schedule m (t - 16)
termination_by t

/-- One round with the constant `k` and the schedule word `w`. -/
def round (k w : UInt32) (x : Words) : Words :=
  let t₁ := x.h + bigSigma1 x.e + ch x.e x.f x.g + k + w
  let t₂ := bigSigma0 x.a + maj x.a x.b x.c
  ⟨t₁ + t₂, x.a, x.b, x.c, x.d + t₁, x.e, x.f, x.g⟩

/-- The hash value after a block. -/
def compress (x : Words) (m : ℕ → UInt32) : Words :=
  x.add ((List.range 64).foldl (fun y t => round (k t) (schedule m t) y) x)

/-! ### Messages -/

/-- The big-endian bytes of a number of `n` bytes. -/
def beBytes (n v : ℕ) : List UInt8 :=
  ((List.range n).map fun i => UInt8.ofNat (v / 256 ^ i % 256)).reverse

/-- The big-endian word at a place in a list of bytes. -/
def wordAt (l : List UInt8) (i : ℕ) : UInt32 :=
  UInt32.ofNat ((l.getD i 0).toNat * 2 ^ 24 + (l.getD (i + 1) 0).toNat * 2 ^ 16 +
    (l.getD (i + 2) 0).toNat * 2 ^ 8 + (l.getD (i + 3) 0).toNat)

/-- The number of zero bytes that fill the last block up to the length. -/
def zeros (n : ℕ) : ℕ := (119 - n % 64) % 64

/-- The padded message: a one bit, zeros, and the length in bits. -/
def pad (msg : List UInt8) : List UInt8 :=
  msg ++ 0x80 :: (List.replicate (zeros msg.length) 0 ++ beBytes 8 (8 * msg.length))

/-- The word `t` of the block `i` of a padded message. -/
def blockWord (padded : List UInt8) (i t : ℕ) : UInt32 := wordAt padded (64 * i + 4 * t)

def digest (msg : List UInt8) : Words :=
  (List.range ((pad msg).length / 64)).foldl (fun x i => compress x (blockWord (pad msg) i)) initial

def Words.bytes (x : Words) : List UInt8 :=
  [x.a, x.b, x.c, x.d, x.e, x.f, x.g, x.h].flatMap fun w => beBytes 4 w.toNat

/-- **SHA-256.** -/
def sha256 (msg : List UInt8) : List UInt8 := (digest msg).bytes

theorem length_bytes (x : Words) : x.bytes.length = 32 := by
  simp [Words.bytes, beBytes]

theorem length_pad (msg : List UInt8) :
    (pad msg).length = msg.length + 1 + zeros msg.length + 8 := by
  simp [pad, beBytes]
  omega

theorem length_pad_mod (msg : List UInt8) : (pad msg).length % 64 = 0 := by
  rw [length_pad, zeros]
  omega

theorem getD_foldl_set {α : Type*} {d : α} {W : ℕ → α} {f : List α → ℕ → α} {L : ℕ} :
    ∀ (n s : ℕ) (w : List α), s + n ≤ L → w.length = L → (∀ j < s, w.getD j d = W j) →
      (∀ i u, s ≤ i → i < s + n → u.length = L → (∀ j < i, u.getD j d = W j) → f u i = W i) →
      ((List.range' s n).foldl (fun u i => u.set i (f u i)) w).length = L ∧
      ∀ j < s + n, ((List.range' s n).foldl (fun u i => u.set i (f u i)) w).getD j d = W j
  | 0, s, w, _, hw, hpre, _ => ⟨hw, hpre⟩
  | n + 1, s, w, hle, hw, hpre, hf => by
    have hset : ∀ j < s + 1, (w.set s (f w s)).getD j d = W j := by
      intro j hj
      by_cases hjs : j = s
      · subst hjs
        rw [List.getD_eq_getElem?_getD, List.getElem?_set_self (by omega), Option.getD_some]
        exact hf j w le_rfl (by omega) hw hpre
      · rw [List.getD_eq_getElem?_getD, List.getElem?_set_ne (Ne.symm hjs),
          ← List.getD_eq_getElem?_getD]
        exact hpre j (by omega)
    have hrest := getD_foldl_set n (s + 1) (w.set s (f w s)) (by omega) (by simpa using hw) hset
      fun i u hi hi' => hf i u (by omega) (by omega)
    rw [List.range'_succ, List.foldl_cons]
    refine ⟨hrest.1, fun j hj => hrest.2 j (by omega)⟩

end Rustchain.Lib.Sha256
