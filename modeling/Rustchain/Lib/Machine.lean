import Mathlib.Algebra.Ring.Int.Defs
import Mathlib.Algebra.Ring.Nat
import Mathlib.Data.Int.Order.Basic
import Mathlib.Tactic.SplitIfs

/-! # Machine arithmetic with an overflow flag

Unsigned integers of width `w` are natural numbers below `2 ^ w`, signed ones are integers. An
operation returns the wrapped result and a flag that says whether the exact result left the range
of the type. A program written over `Flagged` has both readings at once: its `val` is what a build
without overflow checks computes, and it runs in a build with overflow checks exactly when its
`ovf` is `false`. -/

namespace Rustchain.Lib.Machine

/-- A computed value, and whether some operation on the way left the range of its type. -/
@[ext] structure Flagged (α : Type) where
  val : α
  ovf : Bool
  deriving DecidableEq, Repr

instance : Monad Flagged where
  pure a := ⟨a, false⟩
  bind x f := ⟨(f x.val).val, x.ovf || (f x.val).ovf⟩

@[simp] theorem val_pure {α : Type} (a : α) : (pure a : Flagged α).val = a := rfl

@[simp] theorem ovf_pure {α : Type} (a : α) : (pure a : Flagged α).ovf = false := rfl

@[simp] theorem val_bind {α β : Type} (x : Flagged α) (f : α → Flagged β) :
    (x >>= f).val = (f x.val).val := rfl

@[simp] theorem ovf_bind {α β : Type} (x : Flagged α) (f : α → Flagged β) :
    (x >>= f).ovf = (x.ovf || (f x.val).ovf) := rfl

/-! ### Unsigned operations -/

/-- `a + b` in an unsigned type of `w` bits. -/
def addU (w a b : ℕ) : Flagged ℕ := ⟨(a + b) % 2 ^ w, decide (2 ^ w ≤ a + b)⟩

/-- `a - b` in an unsigned type of `w` bits. -/
def subU (w a b : ℕ) : Flagged ℕ :=
  if b ≤ a then ⟨a - b, false⟩ else ⟨a + 2 ^ w - b, true⟩

/-- `a * b` in an unsigned type of `w` bits. -/
def mulU (w a b : ℕ) : Flagged ℕ := ⟨a * b % 2 ^ w, decide (2 ^ w ≤ a * b)⟩

/-- The sum of a list in an unsigned type of `w` bits. The terms are not negative, so a partial sum
leaves the range exactly when the whole sum does. -/
def sumU (w : ℕ) (l : List ℕ) : Flagged ℕ := ⟨l.sum % 2 ^ w, decide (2 ^ w ≤ l.sum)⟩

variable {w a b : ℕ}

theorem addU_val (h : (addU w a b).ovf = false) : (addU w a b).val = a + b := by
  simp only [addU, decide_eq_false_iff_not, Nat.not_le] at h ⊢
  exact Nat.mod_eq_of_lt h

theorem subU_val (h : (subU w a b).ovf = false) : (subU w a b).val = a - b ∧ b ≤ a := by
  unfold subU at h ⊢
  split_ifs at h ⊢ with hab
  exact ⟨rfl, hab⟩

theorem mulU_val (h : (mulU w a b).ovf = false) : (mulU w a b).val = a * b := by
  simp only [mulU, decide_eq_false_iff_not, Nat.not_le] at h ⊢
  exact Nat.mod_eq_of_lt h

theorem sumU_val {w : ℕ} {l : List ℕ} (h : (sumU w l).ovf = false) : (sumU w l).val = l.sum := by
  simp only [sumU, decide_eq_false_iff_not, Nat.not_le] at h ⊢
  exact Nat.mod_eq_of_lt h

theorem sumU_val_le (w : ℕ) (l : List ℕ) : (sumU w l).val ≤ l.sum := Nat.mod_le _ _

/-! An operation stays in range exactly when its exact result is a value of the type. -/

theorem addU_ovf : (addU w a b).ovf = false ↔ a + b < 2 ^ w := by
  simp only [addU, decide_eq_false_iff_not, Nat.not_le]

theorem subU_ovf : (subU w a b).ovf = false ↔ b ≤ a := by
  unfold subU
  split_ifs with hab
  · exact iff_of_true rfl hab
  · exact iff_of_false nofun hab

theorem mulU_ovf : (mulU w a b).ovf = false ↔ a * b < 2 ^ w := by
  simp only [mulU, decide_eq_false_iff_not, Nat.not_le]

theorem sumU_ovf {w : ℕ} {l : List ℕ} : (sumU w l).ovf = false ↔ l.sum < 2 ^ w := by
  simp only [sumU, decide_eq_false_iff_not, Nat.not_le]

theorem subU_of_le (h : b ≤ a) : subU w a b = ⟨a - b, false⟩ := if_pos h

/-! ### Signed operations and casts -/

/-- The value of an integer wrapped to a signed type of `w` bits. -/
def wrapI (w : ℕ) (a : ℤ) : ℤ := Int.bmod a (2 ^ w)

/-- `a` is a value of the signed type of `w` bits. -/
def InRangeI (w : ℕ) (a : ℤ) : Prop := -2 ^ (w - 1) ≤ a ∧ a < 2 ^ (w - 1)

instance (w : ℕ) (a : ℤ) : Decidable (InRangeI w a) := by unfold InRangeI; infer_instance

/-- The result of a signed operation whose exact value is `a`. A build without checks wraps it. -/
def fitI (w : ℕ) (a : ℤ) : Flagged ℤ :=
  if InRangeI w a then ⟨a, false⟩ else ⟨wrapI w a, true⟩

/-- `a + b` in a signed type of `w` bits. -/
def addI (w : ℕ) (a b : ℤ) : Flagged ℤ := fitI w (a + b)

/-- `a - b` in a signed type of `w` bits. -/
def subI (w : ℕ) (a b : ℤ) : Flagged ℤ := fitI w (a - b)

/-- The cast of an unsigned value to the signed type of the same width. The flag is set when the
cast changes the value. -/
def toSigned (w : ℕ) (a : ℕ) : Flagged ℤ := fitI w a

theorem fitI_val {w : ℕ} {a : ℤ} (h : (fitI w a).ovf = false) : (fitI w a).val = a := by
  unfold fitI at h ⊢
  split_ifs at h ⊢
  rfl

theorem fitI_ovf {w : ℕ} {a : ℤ} : (fitI w a).ovf = false ↔ InRangeI w a := by
  unfold fitI
  split_ifs with h
  · exact iff_of_true rfl h
  · exact iff_of_false nofun h

theorem wrapI_eq_iff {w : ℕ} (hw : 0 < w) {a : ℤ} : wrapI w a = a ↔ InRangeI w a := by
  obtain ⟨n, rfl⟩ := Nat.exists_eq_add_one_of_ne_zero (Nat.pos_iff_ne_zero.mp hw)
  have hpos : (0 : ℤ) < 2 ^ n := Int.pow_pos (by decide)
  have hpow : ((2 ^ (n + 1) : ℕ) : ℤ) = 2 ^ n * 2 := by rw [Int.natCast_pow, pow_succ]; rfl
  unfold wrapI InRangeI
  rw [Nat.add_sub_cancel]
  constructor
  · intro h
    have hlo := Int.le_bmod (x := a) (Nat.two_pow_pos (n + 1))
    have hhi := Int.bmod_lt (x := a) (Nat.two_pow_pos (n + 1))
    rw [h, hpow] at hlo hhi
    omega
  · rintro ⟨hlo, hhi⟩
    exact Int.bmod_eq_of_le_mul_two (by omega) (by omega)

theorem fitI_val_eq_wrapI {w : ℕ} (hw : 0 < w) (a : ℤ) : (fitI w a).val = wrapI w a := by
  unfold fitI
  split_ifs with h
  · exact ((wrapI_eq_iff hw).mpr h).symm
  · rfl

theorem inRangeI_fitI {w : ℕ} (hw : 0 < w) (a : ℤ) : InRangeI w (fitI w a).val := by
  rw [fitI_val_eq_wrapI hw, ← wrapI_eq_iff hw]
  exact Int.bmod_bmod

theorem fitI_val_eq_iff {w : ℕ} (hw : 0 < w) {a : ℤ} : (fitI w a).val = a ↔ InRangeI w a := by
  rw [fitI_val_eq_wrapI hw, wrapI_eq_iff hw]

theorem addI_subI_val {w : ℕ} (hw : 0 < w) {a : ℤ} (ha : InRangeI w a) (b : ℤ) :
    (addI w (subI w a b).val b).val = a := by
  unfold addI subI
  rw [fitI_val_eq_wrapI hw, fitI_val_eq_wrapI hw, wrapI, wrapI, Int.bmod_add_bmod,
    Int.sub_add_cancel]
  exact (wrapI_eq_iff hw).mpr ha

end Rustchain.Lib.Machine
