import Rustchain.Vm.Metering

/-! # Host calls on arbitrary arguments

The host functions take the signed integers of the guest as lengths and counts. A call is safe if
the buffers it requests are no longer than the linear memory, its cost does not wrap, and it comes
back. That is so exactly when the lengths it allocates for lie between zero and the size of the
memory, and the sizes of an event are not negative (`safeCall_iff`). -/

namespace Rustchain.Vm

open Rustchain.Core Storage Lib.Machine Lib.Maps Lib.Partial

def GasMeter.grants (m : GasMeter) (n : ℕ) : Bool := (m.consume n).1.isOk

namespace HostCall

/-- The lengths for which a call runs `vec![0u8; len as usize]`. The buffer of `host_transfer` is an
array of fixed size. -/
def requested (mem : Option Memory) (meter : GasMeter) : HostCall → List Int32
  | .storageRead _ keyLen _ =>
    if meter.grants gasCosts.storageRead && mem.isSome then [keyLen] else []
  | .storageWrite _ keyLen _ valLen =>
    if mem.isSome then keyLen :: if 0 ≤ keyLen.toInt then [valLen] else [] else []
  | .emitEvent _ topicsCount _ dataLen =>
    if meter.grants (eventCost topicsCount dataLen).val && mem.isSome then [dataLen] else []
  | .abort _ msgLen => if 0 < msgLen.toInt && mem.isSome then [msgLen] else []
  | _ => []

/-- The cost of a call without the limits of machine integers. -/
def exactCost : HostCall → ℤ
  | .emitEvent _ topicsCount _ dataLen => gasCosts.eventBase +
      gasCosts.eventPerTopic * topicsCount.toInt + gasCosts.eventPerByte * dataLen.toInt
  | c => c.charge

end HostCall

theorem isSome_of_requested {c : HostCall} {mem : Option Memory} {meter : GasMeter} {len : Int32}
    (h : len ∈ c.requested mem meter) : mem.isSome = true := by
  cases mem with
  | some m => rfl
  | none => cases c <;> simp [HostCall.requested] at h

section
variable {M σ : Type} [Backend σ]

/-- **A host call is safe** in a state, with a linear memory. -/
structure SafeCall (s : VmState M σ) (mem : Option Memory) (c : HostCall) : Prop where
  /-- No buffer is longer than the memory. -/
  fits : ∀ len ∈ c.requested mem s.context.gasMeter, ∀ m ∈ mem, asUsize len ≤ m.size
  /-- The arithmetic of the cost does not wrap. -/
  inRange : c.cost.ovf = false
  /-- What is charged is the exact cost. -/
  charged : ∀ r s', runHostCall c mem s = some (r, s') →
    s'.context.gasMeter = s.context.gasMeter.after c.exactCost.toNat
  /-- The call returns to the guest or traps it. -/
  returns : ∃ r s', runHostCall c mem s = some (r, s')

/-! ### Buffers -/

theorem asUsize_le_iff {len : Int32} {n : ℕ} (h : 0 ≤ len.toInt) :
    asUsize len ≤ n ↔ len.toInt ≤ n := by
  unfold asUsize
  rw [if_pos h]
  omega

theorem asUsize_of_neg {len : Int32} (h : len.toInt < 0) : 2 ^ 63 ≤ asUsize len := by
  have hlo := len.le_toInt
  unfold asUsize
  rw [if_neg (by omega)]
  omega

theorem asUsize_lt_of_nonneg {len : Int32} (h : 0 ≤ len.toInt) : asUsize len < 2 ^ 31 := by
  have hhi := len.toInt_lt
  unfold asUsize
  rw [if_pos h]
  omega

/-! ### Cost -/

theorem eventCost_eq (topicsCount dataLen : Int32) :
    (eventCost topicsCount dataLen).ovf = (decide (2 ^ 64 ≤ 375 * asUsize topicsCount) ||
      (decide (2 ^ 64 ≤ 8 * asUsize dataLen) ||
      (decide (2 ^ 64 ≤ 375 + 375 * asUsize topicsCount % 2 ^ 64) ||
      decide (2 ^ 64 ≤ (375 + 375 * asUsize topicsCount % 2 ^ 64) % 2 ^ 64 +
        8 * asUsize dataLen % 2 ^ 64)))) ∧
    (eventCost topicsCount dataLen).val = ((375 + 375 * asUsize topicsCount % 2 ^ 64) % 2 ^ 64 +
      8 * asUsize dataLen % 2 ^ 64) % 2 ^ 64 := ⟨rfl, rfl⟩

theorem eventCost_ovf_iff {topicsCount dataLen : Int32} :
    (eventCost topicsCount dataLen).ovf = false ↔ 0 ≤ topicsCount.toInt ∧ 0 ≤ dataLen.toInt := by
  rw [(eventCost_eq topicsCount dataLen).1]
  simp only [Bool.or_eq_false_iff, decide_eq_false_iff_not, Nat.not_le]
  constructor
  · rintro ⟨ht, hd, -⟩
    constructor
    · by_contra hneg
      have := asUsize_of_neg (Int.not_le.mp hneg)
      omega
    · by_contra hneg
      have := asUsize_of_neg (Int.not_le.mp hneg)
      omega
  · rintro ⟨ht, hd⟩
    have hlt := asUsize_lt_of_nonneg ht
    have hld := asUsize_lt_of_nonneg hd
    have hmt : 375 * asUsize topicsCount % 2 ^ 64 = 375 * asUsize topicsCount :=
      Nat.mod_eq_of_lt (by omega)
    have hmd : 8 * asUsize dataLen % 2 ^ 64 = 8 * asUsize dataLen := Nat.mod_eq_of_lt (by omega)
    rw [hmt, hmd, Nat.mod_eq_of_lt (by omega)]
    omega

theorem eventCost_val {topicsCount dataLen : Int32} (ht : 0 ≤ topicsCount.toInt)
    (hd : 0 ≤ dataLen.toInt) : ((eventCost topicsCount dataLen).val : ℤ) = gasCosts.eventBase +
      gasCosts.eventPerTopic * topicsCount.toInt + gasCosts.eventPerByte * dataLen.toInt := by
  have hlt := asUsize_lt_of_nonneg ht
  have hld := asUsize_lt_of_nonneg hd
  have hut : (asUsize topicsCount : ℤ) = topicsCount.toInt := by
    unfold asUsize
    rw [if_pos ht, Int.toNat_of_nonneg ht]
  have hud : (asUsize dataLen : ℤ) = dataLen.toInt := by
    unfold asUsize
    rw [if_pos hd, Int.toNat_of_nonneg hd]
  rw [(eventCost_eq topicsCount dataLen).2, ← hut, ← hud]
  simp only [gasCosts]
  omega

theorem cost_iff {c : HostCall} : c.cost.ovf = false ↔
    ∀ topicsPtr topicsCount dataPtr dataLen,
      c = .emitEvent topicsPtr topicsCount dataPtr dataLen →
        0 ≤ topicsCount.toInt ∧ 0 ≤ dataLen.toInt := by
  cases c with
  | emitEvent tp tc dp dl =>
    refine eventCost_ovf_iff.trans ⟨?_, fun h => h tp tc dp dl rfl⟩
    rintro h _ _ _ _ he
    cases he
    exact h
  | _ => exact iff_of_true rfl nofun

theorem charge_eq_exactCost {c : HostCall} (h : c.cost.ovf = false) :
    c.exactCost.toNat = c.charge := by
  cases c with
  | emitEvent tp tc dp dl =>
    obtain ⟨ht, hd⟩ := eventCost_ovf_iff.mp h
    have hval := eventCost_val ht hd
    simp only [HostCall.exactCost]
    rw [← hval, Int.toNat_natCast]
    rfl
  | _ => exact Int.toNat_natCast _

/-! ### Results -/

omit [Backend σ] in
theorem total_arith {α : Type} (x : Flagged α) : Total (arith x : VmM M σ α) := fun _ => rfl

theorem total_storageRead (addr : Address) (key : Bytes) :
    Total (storageRead addr key : VmM M σ _) := by
  refine Total.bind (fun _ => rfl) fun ctx => ?_
  split
  · exact Total.pure _
  · exact fun _ => rfl

theorem total_getBalance (addr : Address) : Total (getBalance addr : VmM M σ _) := by
  refine Total.bind (fun _ => rfl) fun r => ?_
  split
  · exact Total.pure _
  · exact Total.bind (fun _ => rfl) fun _ => Total.bind (total_arith _) fun _ =>
      Total.bind (total_arith _) fun _ => Total.pure _

theorem total_transfer (source target : Address) (amount : ℕ) :
    Total (transfer source target amount : VmM M σ _) := by
  refine Total.bind (total_getBalance _) fun r => ?_
  split
  · exact Total.pure _
  · split_ifs
    · exact Total.pure _
    · exact Total.bind (total_arith _) fun _ => Total.bind (fun _ => rfl) fun _ =>
        Total.bind (total_arith _) fun _ => Total.bind (fun _ => rfl) fun _ =>
        Total.bind (fun _ => rfl) fun _ => Total.bind (total_arith _) fun _ =>
        Total.bind (fun _ => rfl) fun _ => Total.pure _

omit [Backend σ] in
theorem isSome_allocBuffer_bind {β : Type} {len : Int32} {f : ℕ → VmM M σ β}
    (hf : ∀ n, Total (f n)) (s : VmState M σ) :
    ((allocBuffer len >>= f) s).isSome = true ↔ 0 ≤ len.toInt := by
  rw [bind_apply]
  unfold allocBuffer
  split_ifs with h
  · exact iff_of_true (hf _ _) h
  · exact iff_of_false nofun h

omit [Backend σ] in
theorem isSome_metered {β : Type} (n : ℕ) (len : Int32) (b : β) {f : Memory → ℕ → VmM M σ β}
    (hf : ∀ m k, Total (f m k)) (mem : Option Memory) (s : VmState M σ) :
    ((do
      match ← consumeGas n with
      | .error _ => return b
      | .ok _ =>
        match mem with
        | none => return b
        | some m => do
          let k ← allocBuffer len
          f m k : VmM M σ β) s).isSome = true ↔
      ∀ l ∈ if s.context.gasMeter.grants n && mem.isSome then [len] else [], 0 ≤ l.toInt := by
  obtain ⟨r, s1, hgas, hgrants⟩ : ∃ r s1, consumeGas n s = some (r, s1) ∧
      s.context.gasMeter.grants n = r.isOk := ⟨_, _, rfl, rfl⟩
  rw [bind_of_eq hgas, hgrants]
  cases r with
  | error e => exact iff_of_true rfl (by simp [Except.isOk, Except.toBool])
  | ok _ =>
    cases mem with
    | none => exact iff_of_true rfl (by simp)
    | some m =>
      exact (isSome_allocBuffer_bind (hf m) s1).trans (by simp [Except.isOk, Except.toBool])

theorem isSome_hostStorageRead (kp kl vp : Int32) (mem : Option Memory) (s : VmState M σ) :
    (hostStorageRead kp kl vp mem s).isSome = true ↔
      ∀ len ∈ (HostCall.storageRead kp kl vp).requested mem s.context.gasMeter, 0 ≤ len.toInt := by
  refine isSome_metered _ _ _ (fun m k => ?_) mem s
  split
  · exact Total.pure _
  · refine Total.bind (fun _ => rfl) fun _ => Total.bind (total_storageRead _ _) fun _ => ?_
    split
    · split <;> exact Total.pure _
    · exact Total.pure _

omit [Backend σ] in
theorem isSome_hostStorageWrite (kp kl vp vl : Int32) (mem : Option Memory) (s : VmState M σ) :
    (hostStorageWrite kp kl vp vl mem s).isSome = true ↔
      ∀ len ∈ (HostCall.storageWrite kp kl vp vl).requested mem s.context.gasMeter,
        0 ≤ len.toInt := by
  have hgas : consumeGas gasCosts.storageWrite s = some (_, _) := rfl
  simp only [HostCall.requested]
  unfold hostStorageWrite
  rw [bind_of_eq hgas]
  cases mem with
  | none => exact iff_of_true rfl (by simp)
  | some m =>
    dsimp only
    by_cases hkl : 0 ≤ kl.toInt
    · have halloc : ∀ s : VmState M σ, allocBuffer kl s = some (asUsize kl, s) :=
        fun _ => if_pos hkl
      rw [bind_of_eq (halloc _)]
      refine (isSome_allocBuffer_bind (fun n => ?_) _).trans (by simp [hkl])
      split
      · exact Total.bind (fun _ => rfl) fun _ => Total.bind (fun _ => rfl) fun _ => Total.pure _
      · exact Total.pure _
    · have halloc : ∀ s : VmState M σ, allocBuffer kl s = none := fun _ => if_neg hkl
      rw [bind_apply, halloc]
      exact iff_of_false nofun (by simp [hkl])

omit [Backend σ] in
theorem isSome_hostEmitEvent (tp tc dp dl : Int32) (mem : Option Memory) (s : VmState M σ) :
    (hostEmitEvent tc dp dl mem s).isSome = true ↔
      ∀ len ∈ (HostCall.emitEvent tp tc dp dl).requested mem s.context.gasMeter,
        0 ≤ len.toInt := by
  -- computing the cost only sets the flag
  refine isSome_metered (eventCost tc dl).val dl _ (fun m k => ?_) mem
    { s with overflow := s.overflow || _ || _ || _ || _ }
  split
  · exact Total.pure _
  · exact Total.bind (fun _ => rfl) fun _ => Total.pure _

omit [Backend σ] in
theorem isSome_hostAbort (p l : Int32) (mem : Option Memory) (s : VmState M σ) :
    (hostAbort p l mem s).isSome = true ↔
      ∀ len ∈ (HostCall.abort p l).requested mem s.context.gasMeter, 0 ≤ len.toInt := by
  simp only [HostCall.requested]
  unfold hostAbort
  by_cases hl : 0 < l.toInt
  · rw [if_pos hl]
    cases mem with
    | none => exact iff_of_true rfl (by simp)
    | some m => exact (isSome_allocBuffer_bind (fun n => Total.pure _) _).trans (by simp [hl])
  · rw [if_neg hl]
    exact iff_of_true rfl (by simp [hl])

theorem total_hostTransfer (p : Int32) (amount : Int64) (mem : Option Memory) :
    Total (hostTransfer p amount mem : VmM M σ _) := by
  refine Total.bind (fun _ => rfl) fun r => ?_
  split
  · exact Total.pure _
  · split
    · exact Total.pure _
    · split
      · exact Total.pure _
      · refine Total.bind (fun _ => rfl) fun _ => Total.bind (total_transfer _ _ _) fun _ => ?_
        split <;> exact Total.pure _

theorem total_hostSelfBalance (mem : Option Memory) : Total (hostSelfBalance mem : VmM M σ _) := by
  refine Total.bind (fun _ => rfl) fun _ => Total.bind (total_getBalance _) fun _ => ?_
  split <;> exact Total.pure _

theorem isSome_runHostCall (c : HostCall) (mem : Option Memory) (s : VmState M σ) :
    (runHostCall c mem s).isSome = true ↔
      ∀ len ∈ c.requested mem s.context.gasMeter, 0 ≤ len.toInt := by
  have hmap : ∀ {α β : Type} (f : α → β) (x : VmM M σ α),
      ((f <$> x) s).isSome = true ↔ (x s).isSome = true := fun f x => by
    rw [map_apply, Option.isSome_map]
  cases c with
  | storageRead kp kl vp => exact (hmap _ _).trans (isSome_hostStorageRead kp kl vp mem s)
  | storageWrite kp kl vp vl => exact (hmap _ _).trans (isSome_hostStorageWrite kp kl vp vl mem s)
  | transfer p a => exact iff_of_true ((total_hostTransfer p a mem).map s) nofun
  | selfBalance => exact iff_of_true ((total_hostSelfBalance mem).map s) nofun
  | emitEvent tp tc dp dl => exact (hmap _ _).trans (isSome_hostEmitEvent tp tc dp dl mem s)
  | abort p l =>
    rw [← isSome_hostAbort p l mem s]
    show ((hostAbort p l mem s).bind fun b => some (_, b.2)).isSome = true ↔ _
    cases hostAbort p l mem s with
    | none => rfl
    | some b => exact iff_of_true rfl rfl
  | _ => exact iff_of_true rfl nofun

end

/-- **A host call is safe** exactly when the lengths it allocates for lie between zero and the size
of the memory, and the sizes of an event are not negative. -/
theorem safeCall_iff {M σ : Type} [Backend σ] {s : VmState M σ} (hwf : s.context.gasMeter.Wf)
    (mem : Option Memory) (c : HostCall) :
    SafeCall s mem c ↔
      (∀ len ∈ c.requested mem s.context.gasMeter, ∀ m ∈ mem,
        0 ≤ len.toInt ∧ len.toInt ≤ m.size) ∧
      ∀ topicsPtr topicsCount dataPtr dataLen,
        c = .emitEvent topicsPtr topicsCount dataPtr dataLen →
          0 ≤ topicsCount.toInt ∧ 0 ≤ dataLen.toInt := by
  have hreturns : (∃ r s', runHostCall c mem s = some (r, s')) ↔ _ :=
    (Option.isSome_iff_exists.trans Prod.exists).symm.trans (isSome_runHostCall c mem s)
  constructor
  · rintro ⟨hfits, hrange, -, hret⟩
    have hnonneg := hreturns.mp hret
    refine ⟨fun len hlen m hm => ⟨hnonneg len hlen, ?_⟩, cost_iff.mp hrange⟩
    exact (asUsize_le_iff (hnonneg len hlen)).mp (hfits len hlen m hm)
  · rintro ⟨hlens, hevent⟩
    have hrange := cost_iff.mpr hevent
    refine ⟨fun len hlen m hm => ?_, hrange, fun r s' h => ?_, hreturns.mpr fun len hlen => ?_⟩
    · exact (asUsize_le_iff (hlens len hlen m hm).1).mpr (hlens len hlen m hm).2
    · rw [charge_eq_exactCost hrange]
      exact runHostCall_meter hwf h
    · obtain ⟨m, hm⟩ := Option.isSome_iff_exists.mp (isSome_of_requested hlen)
      exact (hlens len hlen m hm).1

/-- An execution that is about to make a host call. -/
def idle : VmState Unit Database :=
  ⟨.new Address.zero Address.zero Address.zero 0 0 0 0 10000, Database.empty, ∅, false⟩

def page : Memory := ⟨65536, fun _ => 0⟩

theorem wf_idle : idle.context.gasMeter.Wf := ⟨by decide, by decide⟩

/-- A read with a key inside the memory is safe. -/
theorem safeCall_read :
    idle.context.gasMeter.Wf ∧ SafeCall idle (some page) (.storageRead 0 32 64) := by
  refine ⟨wf_idle, (safeCall_iff wf_idle _ _).mpr ⟨?_, nofun⟩⟩
  intro len hlen m hm
  obtain rfl := List.mem_singleton.mp hlen
  obtain rfl := Option.some.inj hm
  exact ⟨by decide, show (32 : ℤ) ≤ (65536 : ℕ) by decide⟩

/-- **Four calls that are not safe**: a read with a negative length panics the node; a read and an
abort with a length beyond the memory request a buffer for it; and the cost of an event with `-1`
topics wraps. -/
theorem not_safeCall_lengths :
    runHostCall (.storageRead 0 (-1) 0) (some page) idle = none ∧
      ¬ SafeCall idle (some page) (.storageRead 0 (-1) 0) ∧
      ¬ SafeCall idle (some page) (.storageRead 0 65537 0) ∧
      ¬ SafeCall idle (some page) (.abort 0 65537) ∧
      ¬ SafeCall idle (some page) (.emitEvent 0 (-1) 0 0) := by
  have hpanic : runHostCall (.storageRead 0 (-1) 0) (some page) idle = none := rfl
  refine ⟨hpanic, fun h => ?_, fun h => ?_, fun h => ?_, fun h => ?_⟩
  · obtain ⟨r, s', hr⟩ := h.returns
    rw [hpanic] at hr
    cases hr
  · exact absurd (h.fits 65537 (by decide) page rfl) (by decide)
  · exact absurd (h.fits 65537 (by decide) page rfl) (by decide)
  · exact absurd h.inRange (by decide)

end Rustchain.Vm
