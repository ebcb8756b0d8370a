import Mathlib.Data.Nat.Digits.Defs

/-! # Bitcoin scripts

A script is a string of bytes. It is read as a sequence of instructions: a byte up to `0x4b` pushes
that many of the bytes after it, `OP_PUSHDATA1`, `2` and `4` (`0x4c` to `0x4e`) are followed by the
length of what they push, and every other byte is an operation. `parse_flatMap_bytes` says that a
sequence with direct pushes only is read back from its bytes. A number on the stack is little-endian
with its sign in the highest bit (`number`). -/

namespace Rustchain.Lib.BitcoinScript

/-- An instruction of a script. -/
inductive Instr where
  | push (data : List UInt8)
  | op (code : UInt8)
  deriving DecidableEq, Repr

/-! ### Operations -/

def opIf : Instr := .op 0x63
def opElse : Instr := .op 0x67
def opEndIf : Instr := .op 0x68
def opDrop : Instr := .op 0x75
def opEqualVerify : Instr := .op 0x88
def opSha256 : Instr := .op 0xa8
def opCheckSig : Instr := .op 0xac
def opCheckLockTimeVerify : Instr := .op 0xb1

/-! ### Numbers -/

/-- The number with the given bytes, the lowest first. -/
def unsigned (l : List UInt8) : ℕ := Nat.ofDigits 256 (l.map UInt8.toNat)

/-- The number that a stack element stands for: its highest bit is the sign. -/
def number (l : List UInt8) : ℤ :=
  if unsigned l < 2 ^ (8 * l.length - 1) then unsigned l
  else -((unsigned l : ℤ) - 2 ^ (8 * l.length - 1))

theorem number_eq_unsigned_iff {l : List UInt8} :
    number l = unsigned l ↔ unsigned l < 2 ^ (8 * l.length - 1) := by
  unfold number
  split_ifs with h
  · exact iff_of_true rfl h
  · refine iff_of_false (fun heq => h ?_) h
    -- the magnitude without the sign bit is at least zero, so both sides would have to be zero
    have hpos : 0 < 2 ^ (8 * l.length - 1) := Nat.two_pow_pos _
    have hle : ((2 ^ (8 * l.length - 1) : ℕ) : ℤ) ≤ unsigned l := by exact_mod_cast not_lt.mp h
    push_cast at hle
    have hpos' : (0 : ℤ) < 2 ^ (8 * l.length - 1) := by exact_mod_cast hpos
    omega

/-! ### Reading -/

/-- A push of the next `n` bytes. -/
def readPush (n : ℕ) (l : List UInt8) : Option (Instr × List UInt8) :=
  if n ≤ l.length then some (.push (l.take n), l.drop n) else none

/-- The first instruction of a script and what follows it. -/
def readInstr : List UInt8 → Option (Instr × List UInt8)
  | [] => none
  | b :: l =>
    if b ≤ 0x4b then readPush b.toNat l
    else if b ≤ 0x4e then
      -- the length of the pushed bytes takes one, two or four bytes
      let size := 2 ^ (b.toNat - 0x4c)
      if size ≤ l.length then readPush (unsigned (l.take size)) (l.drop size) else none
    else some (.op b, l)

theorem length_readPush {n : ℕ} {l : List UInt8} {i : Instr} {rest : List UInt8}
    (h : readPush n l = some (i, rest)) : rest.length ≤ l.length := by
  unfold readPush at h
  split_ifs at h
  rw [← (Prod.mk.inj (Option.some.inj h)).2, List.length_drop]
  omega

theorem length_readInstr {b : UInt8} {l : List UInt8} {i : Instr} {rest : List UInt8}
    (h : readInstr (b :: l) = some (i, rest)) : rest.length < (b :: l).length := by
  rw [List.length_cons, Nat.lt_succ_iff]
  simp only [readInstr] at h
  split_ifs at h
  · exact length_readPush h
  · exact (length_readPush h).trans (List.length_drop ▸ Nat.sub_le _ _)
  · exact (Prod.mk.inj (Option.some.inj h)).2 ▸ le_rfl

/-- The instructions of a script, or nothing if it ends inside one. -/
def parse : List UInt8 → Option (List Instr)
  | [] => some []
  | b :: l =>
    match h : readInstr (b :: l) with
    | none => none
    | some (i, rest) =>
      have : rest.length < (b :: l).length := length_readInstr h
      (parse rest).map (i :: ·)
termination_by l => l.length
decreasing_by exact this

theorem parse_of_readInstr {l : List UInt8} {i : Instr} {rest : List UInt8}
    (h : readInstr l = some (i, rest)) : parse l = (parse rest).map (i :: ·) := by
  cases l with
  | nil => cases h
  | cons b l =>
    rw [parse]
    split
    · simp_all
    · simp_all

/-! ### Writing -/

/-- The bytes of an instruction, with a direct push. -/
def Instr.bytes : Instr → List UInt8
  | .push data => UInt8.ofNat data.length :: data
  | .op code => [code]

/-- The instruction is an operation or can be written as a direct push. -/
def Instr.Direct : Instr → Prop
  | .push data => data.length ≤ 0x4b
  | .op code => 0x4e < code

instance : DecidablePred Instr.Direct
  | .push data => inferInstanceAs (Decidable (data.length ≤ 0x4b))
  | .op code => inferInstanceAs (Decidable (0x4e < code))

theorem readInstr_bytes_append {i : Instr} (h : i.Direct) (rest : List UInt8) :
    readInstr (i.bytes ++ rest) = some (i, rest) := by
  cases i with
  | push data =>
    have hlen : data.length ≤ 0x4b := h
    have hnat : (UInt8.ofNat data.length).toNat = data.length := by
      rw [UInt8.toNat_ofNat']
      omega
    have hle : UInt8.ofNat data.length ≤ 0x4b := UInt8.le_iff_toNat_le.mpr (hnat.symm ▸ hlen)
    simp only [Instr.bytes, List.cons_append, readInstr]
    rw [if_pos hle, hnat, readPush, if_pos (by simp), List.take_left, List.drop_left]
  | op code =>
    have hcode : 0x4e < code := h
    have hlow : ¬code ≤ 0x4e := UInt8.not_le.mpr hcode
    have hpush : ¬code ≤ 0x4b := fun hle => hlow (UInt8.le_trans hle (by decide))
    simp only [Instr.bytes, List.cons_append, List.nil_append, readInstr]
    rw [if_neg hpush, if_neg hlow]

/-- **Instructions are read back from their bytes.** -/
theorem parse_flatMap_bytes {l : List Instr} (h : ∀ i ∈ l, i.Direct) :
    parse (l.flatMap Instr.bytes) = some l := by
  induction l with
  | nil => rw [List.flatMap_nil, parse]
  | cons i l ih =>
    rw [List.flatMap_cons,
      parse_of_readInstr (readInstr_bytes_append (h i List.mem_cons_self) _),
      ih fun j hj => h j (List.mem_cons_of_mem i hj), Option.map_some]

end Rustchain.Lib.BitcoinScript
