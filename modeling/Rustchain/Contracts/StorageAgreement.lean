import Rustchain.Contracts.Hosting
import Rustchain.Lib.Runs
import Rustchain.Vm.Metering

/-! # The storage of the SDK, on the target and in the mock

`sdk::storage_read` and `sdk::storage_write` exist twice: on the target over the host functions,
with buffers in linear memory, and natively over a plain map. Here are both, and the sequences of
calls in which they agree: those in which no value is empty or longer than the buffer of 4096 bytes
when it is read, and the buffers lie below `2 ^ 31` (`storageAgrees_iff`). -/

namespace Rustchain.Contracts

open Rustchain.Core Storage Lib.Machine Lib.Maps Lib.Partial Lib.Runs
open Vm hiding Trap

variable {M : Type}

/-! ### The two implementations -/

def bufferLen : ℕ := 4096

/-- What `sdk::storage_read` makes of the answer of the host: a positive number is the length to
which the buffer is truncated. -/
def received (m : Memory) (bufPtr : ℕ) (answer : HostValue × Option Memory) :
    Option Bytes × Memory :=
  let m' := answer.2.getD m
  let buf := (List.range bufferLen).map fun i => m'.byte (bufPtr + i)
  match answer.1 with
  | .i32 len => if 0 < len.toInt then (some (buf.take (asUsize len)), m') else (none, m')
  | _ => (none, m')

/-- `sdk::storage_read` on the target, with the key and the buffer in linear memory. -/
def sdkStorageRead (m : Memory) (keyPtr keyLen bufPtr : ℕ) :
    VmM M Database (Option Bytes × Memory) := do
  let answer ← hostStorageRead (Int32.ofNat keyPtr) (Int32.ofNat keyLen) (Int32.ofNat bufPtr)
    (some m)
  return received m bufPtr answer

/-- `sdk::storage_write` on the target. -/
def sdkStorageWrite (m : Memory) (keyPtr keyLen valPtr valLen : ℕ) : VmM M Database Unit := do
  let _ ← hostStorageWrite (Int32.ofNat keyPtr) (Int32.ofNat keyLen) (Int32.ofNat valPtr)
    (Int32.ofNat valLen) (some m)
  return ()

/-- `storage_read` of the mock. -/
def mockStorageRead (storage : Table Bytes Bytes) (key : Bytes) : Option Bytes := storage.lookup key

/-- `storage_write` of the mock. -/
def mockStorageWrite (storage : Table Bytes Bytes) (key value : Bytes) : Table Bytes Bytes :=
  storage.insert key value

/-- A slice of bytes in a linear memory. On the target a pointer has 32 bits, and no slice is longer
than `isize::MAX`. -/
structure Buffer (m : Memory) where
  ptr : ℕ
  bytes : Bytes
  ptr_lt : ptr < 2 ^ 32
  length_lt : bytes.length < 2 ^ 31
  inside : m.read ptr bytes.length = some bytes

/-- A call of a contract, with the linear memory in which it is made. -/
inductive SdkCall where
  | write (m : Memory) (hsize : m.size ≤ 2 ^ 32) (key value : Buffer m)
  | read (m : Memory) (hsize : m.size ≤ 2 ^ 32) (key : Buffer m) (bufPtr : ℕ)
      (hbuf : bufPtr + bufferLen ≤ m.size)

namespace SdkCall

def cost : SdkCall → ℕ
  | .write .. => gasCosts.storageWrite
  | .read .. => gasCosts.storageRead

/-- The execution after a call; a call that panics the host leaves it. -/
def onTarget (vm : VmState M Database) : SdkCall → VmState M Database
  | .write m _ key value =>
    ((sdkStorageWrite m key.ptr key.bytes.length value.ptr value.bytes.length vm).map Prod.snd).getD
      vm
  | .read m _ key bufPtr _ =>
    ((sdkStorageRead m key.ptr key.bytes.length bufPtr vm).map Prod.snd).getD vm

def onMock (storage : Table Bytes Bytes) : SdkCall → Table Bytes Bytes
  | .write _ _ key value => mockStorageWrite storage key.bytes value.bytes
  | .read .. => storage

end SdkCall

/-- The execution and the mock after a call of both. -/
def sdkNext (st : VmState M Database × Table Bytes Bytes) (c : SdkCall) :
    VmState M Database × Table Bytes Bytes := (c.onTarget st.1, c.onMock st.2)

/-- The target holds what the mock holds. -/
def SameStorage (st : VmState M Database × Table Bytes Bytes) : Prop :=
  ∀ key, stored st.1 key = st.2.lookup key

/-- **A call behaves the same**: a read returns what the mock returns and writes only to its buffer,
and the target is left with what the mock is left with. -/
def SameCall (st : VmState M Database × Table Bytes Bytes) : SdkCall → Prop
  | .write m _ key value => ∃ vm', sdkStorageWrite m key.ptr key.bytes.length value.ptr
      value.bytes.length st.1 = some ((), vm') ∧
      SameStorage (vm', mockStorageWrite st.2 key.bytes value.bytes)
  | .read m _ key bufPtr _ => ∃ m' vm', sdkStorageRead m key.ptr key.bytes.length bufPtr st.1 =
      some ((mockStorageRead st.2 key.bytes, m'), vm') ∧
      (∀ i, ¬ (bufPtr ≤ i ∧ i < bufPtr + bufferLen) → m'.byte i = m.byte i) ∧
      SameStorage (vm', st.2)

/-- **What a call needs for that.** -/
def Suits (storage : Table Bytes Bytes) : SdkCall → Prop
  | .write _ _ key value => key.ptr < 2 ^ 31 ∧ value.ptr < 2 ^ 31 ∨
      storage.lookup key.bytes = some value.bytes
  | .read _ _ key bufPtr _ => ∀ value, storage.lookup key.bytes = some value →
      value ≠ [] ∧ value.length ≤ bufferLen ∧ key.ptr < 2 ^ 31 ∧ bufPtr < 2 ^ 31

/-! ### Pointers -/

theorem asUsize_ofNat_of_lt {n : ℕ} (h : n < 2 ^ 31) : asUsize (Int32.ofNat n) = n := by
  have hint : (Int32.ofNat n).toInt = n := Int32.toInt_ofNat_of_lt h
  unfold asUsize
  rw [hint, if_pos (by omega), Int.toNat_natCast]

theorem le_asUsize_ofNat {n : ℕ} (hlo : 2 ^ 31 ≤ n) (hhi : n < 2 ^ 32) :
    2 ^ 63 ≤ asUsize (Int32.ofNat n) := by
  have hmod : (Int32.ofNat n).toInt = (n : ℤ).bmod (2 ^ 32) := Int32.toInt_ofNat'
  have hint : (Int32.ofNat n).toInt = (n : ℤ) - 2 ^ 32 := by
    rw [hmod, Int.bmod_def]
    split_ifs <;> omega
  unfold asUsize
  rw [hint, if_neg (by omega)]
  omega

theorem Buffer.read_eq {m : Memory} (hsize : m.size ≤ 2 ^ 32) (b : Buffer m) :
    m.read (asUsize (Int32.ofNat b.ptr)) (asUsize (Int32.ofNat b.bytes.length)) =
      if b.ptr < 2 ^ 31 then some b.bytes else none := by
  rw [asUsize_ofNat_of_lt b.length_lt]
  split_ifs with hlow
  · rw [asUsize_ofNat_of_lt hlow, b.inside]
  · have hhigh := le_asUsize_ofNat (Nat.not_lt.mp hlow) b.ptr_lt
    exact if_neg (by omega)

theorem Buffer.allocBuffer_run {m : Memory} (b : Buffer m) (vm : VmState M Database) :
    allocBuffer (Int32.ofNat b.bytes.length) vm =
      some (asUsize (Int32.ofNat b.bytes.length), vm) := by
  refine Contracts.allocBuffer_run ?_
  rw [Int32.toInt_ofNat_of_lt b.length_lt]
  omega

theorem consumeGas_stored (n : ℕ) (vm : VmState M Database) :
    ∃ r vm', consumeGas n vm = some (r, vm') ∧ ∀ k, stored vm' k = stored vm k :=
  ⟨_, _, rfl, fun _ => rfl⟩

/-! ### Writes -/

section
variable {vm : VmState M Database} {storage : Table Bytes Bytes} {m : Memory}

theorem sdkStorageWrite_run (hsize : m.size ≤ 2 ^ 32) (key value : Buffer m)
    (vm : VmState M Database) :
    ∃ vm', sdkStorageWrite m key.ptr key.bytes.length value.ptr value.bytes.length vm =
        some ((), vm') ∧
      ∀ k, stored vm' k = if key.ptr < 2 ^ 31 ∧ value.ptr < 2 ^ 31 ∧ k = key.bytes then
        some value.bytes else stored vm k := by
  obtain ⟨r, vm1, hgas, hstored⟩ := consumeGas_stored gasCosts.storageWrite vm
  unfold sdkStorageWrite hostStorageWrite
  rw [bind_apply, bind_of_eq hgas]
  dsimp only
  rw [bind_of_eq (key.allocBuffer_run _), bind_of_eq (value.allocBuffer_run _),
    key.read_eq hsize, value.read_eq hsize]
  by_cases hk : key.ptr < 2 ^ 31
  · by_cases hv : value.ptr < 2 ^ 31
    · rw [if_pos hk, if_pos hv]
      refine ⟨journaled vm1 key.bytes value.bytes, rfl, fun k => ?_⟩
      rw [stored_journaled, hstored]
      simp only [hk, hv, true_and]
    · rw [if_pos hk, if_neg hv]
      refine ⟨vm1, rfl, fun k => ?_⟩
      rw [if_neg fun h => hv h.2.1, hstored]
  · rw [if_neg hk]
    refine ⟨vm1, rfl, fun k => ?_⟩
    rw [if_neg fun h => hk h.1, hstored]

theorem sameCall_write_iff (h : SameStorage (vm, storage)) (hsize : m.size ≤ 2 ^ 32)
    (key value : Buffer m) :
    SameCall (vm, storage) (.write m hsize key value) ↔
      Suits storage (.write m hsize key value) := by
  obtain ⟨vm', hrun, hstored⟩ := sdkStorageWrite_run hsize key value vm
  simp only [SameCall, Suits, hrun, Option.some.injEq, Prod.mk.injEq, true_and, exists_eq_left',
    SameStorage, mockStorageWrite, hstored]
  constructor
  · intro hall
    have hself := hall key.bytes
    rw [Finmap.lookup_insert] at hself
    split_ifs at hself with hlow
    · exact .inl ⟨hlow.1, hlow.2.1⟩
    · exact .inr ((h key.bytes).symm.trans hself)
  · intro hsuits k
    by_cases hk : k = key.bytes
    · rw [hk, Finmap.lookup_insert]
      split_ifs with hlow
      · rfl
      · rcases hsuits with hptr | hheld
        · exact absurd ⟨hptr.1, hptr.2, rfl⟩ hlow
        · exact (h key.bytes).trans hheld
    · rw [Finmap.lookup_insert_of_ne _ hk, if_neg fun hlow => hk hlow.2.2]
      exact h k

/-! ### Reads -/

variable {bufPtr : ℕ}

theorem length_received {answer : HostValue × Option Memory} :
    ∀ b ∈ (received m bufPtr answer).1, b.length ≤ bufferLen := by
  intro b hb
  unfold received at hb
  dsimp only at hb
  split at hb
  · split_ifs at hb
    · obtain rfl := Option.some.inj hb
      rw [List.length_take, List.length_map, List.length_range]
      exact min_le_right _ _
    · cases hb
  · cases hb

theorem received_snd {answer : HostValue × Option Memory} :
    (received m bufPtr answer).2 = answer.2.getD m := by
  unfold received
  dsimp only
  split
  · split_ifs <;> rfl
  · rfl

theorem received_value {m' : Memory} {value : Bytes} (hlen : value.length ≤ bufferLen)
    (h : m.write bufPtr value = some m') :
    received m bufPtr (.i32 (Int32.ofNat value.length), some m') =
      (if value = [] then none else some value, m') := by
  have hlt : value.length < 2 ^ 31 := by
    unfold bufferLen at hlen
    omega
  unfold received
  dsimp only [Option.getD_some]
  rw [Int32.toInt_ofNat_of_lt hlt, asUsize_ofNat_of_lt hlt]
  cases value with
  | nil => rfl
  | cons b rest =>
    have hread := read_of_write h
    unfold Memory.read at hread
    split_ifs at hread
    rw [if_pos (by simp only [List.length_cons]; omega), if_neg (List.cons_ne_nil b rest),
      ← List.map_take, List.take_range, min_eq_left hlen, Option.some.inj hread]

theorem write_outside {m' : Memory} {ptr : ℕ} {value : Bytes} (h : m.write ptr value = some m')
    {i : ℕ} (hi : ¬ (ptr ≤ i ∧ i < ptr + value.length)) : m'.byte i = m.byte i := by
  unfold Memory.write at h
  split_ifs at h
  obtain rfl := Option.some.inj h
  exact if_neg hi

theorem hostStorageRead_cases (hgas : HasGas vm gasCosts.storageRead) (hsize : m.size ≤ 2 ^ 32)
    (key : Buffer m) (hbuf : bufPtr + bufferLen ≤ m.size) :
    ∃ answer vm', hostStorageRead (Int32.ofNat key.ptr) (Int32.ofNat key.bytes.length)
        (Int32.ofNat bufPtr) (some m) vm = some (answer, vm') ∧
      (∀ k, stored vm' k = stored vm k) ∧
      ((stored vm key.bytes = none ∧ (received m bufPtr answer) = (none, m)) ∨
        ∃ value, stored vm key.bytes = some value ∧
          (¬ (key.ptr < 2 ^ 31 ∧ bufPtr < 2 ^ 31 ∧ bufPtr + value.length ≤ m.size) ∧
            (received m bufPtr answer) = (none, m) ∨
          key.ptr < 2 ^ 31 ∧ bufPtr < 2 ^ 31 ∧ ∃ m', m.write bufPtr value = some m' ∧
            answer = (.i32 (Int32.ofNat value.length), some m'))) := by
  have hstored : ∀ k, stored (charged vm gasCosts.storageRead) k = stored vm k := fun _ => rfl
  have hread := storageRead_stored (charged vm gasCosts.storageRead) key.bytes
  unfold hostStorageRead
  rw [bind_of_eq (consumeGas_run hgas)]
  generalize charged vm gasCosts.storageRead = vm1 at hstored hread ⊢
  dsimp only
  rw [bind_of_eq (key.allocBuffer_run _), key.read_eq hsize]
  by_cases hk : key.ptr < 2 ^ 31
  · rw [if_pos hk]
    dsimp only
    rw [bind_of_eq (getContext_run _), bind_of_eq hread, ← hstored key.bytes]
    cases hvalue : stored vm1 key.bytes with
    | none => exact ⟨_, vm1, rfl, hstored, .inl ⟨rfl, rfl⟩⟩
    | some value =>
      dsimp only
      cases hwrite : m.write (asUsize (Int32.ofNat bufPtr)) value with
      | none =>
        refine ⟨_, vm1, rfl, hstored, .inr ⟨value, rfl, .inl ⟨?_, rfl⟩⟩⟩
        rintro ⟨-, hb, hfit⟩
        rw [asUsize_ofNat_of_lt hb, Memory.write, if_pos hfit] at hwrite
        cases hwrite
      | some m' =>
        have hb : bufPtr < 2 ^ 31 := by
          by_contra hb
          have hhigh := le_asUsize_ofNat (Nat.not_lt.mp hb) (by unfold bufferLen at hbuf; omega)
          rw [Memory.write, if_neg (by omega)] at hwrite
          cases hwrite
        rw [asUsize_ofNat_of_lt hb] at hwrite
        exact ⟨_, vm1, rfl, hstored, .inr ⟨value, rfl, .inr ⟨hk, hb, m', hwrite, rfl⟩⟩⟩
  · rw [if_neg hk]
    refine ⟨_, vm1, rfl, hstored, ?_⟩
    cases stored vm key.bytes with
    | none => exact .inl ⟨rfl, rfl⟩
    | some value => exact .inr ⟨value, rfl, .inl ⟨fun h => hk h.1, rfl⟩⟩

theorem sameCall_read_iff (h : SameStorage (vm, storage)) (hgas : HasGas vm gasCosts.storageRead)
    (hsize : m.size ≤ 2 ^ 32) (key : Buffer m) (hbuf : bufPtr + bufferLen ≤ m.size) :
    SameCall (vm, storage) (.read m hsize key bufPtr hbuf) ↔
      Suits storage (.read m hsize key bufPtr hbuf) := by
  obtain ⟨answer, vm', hrun, hstored, hcases⟩ := hostStorageRead_cases hgas hsize key hbuf
  have hsame : SameStorage (vm', storage) := fun k => (hstored k).trans (h k)
  have hsdk : sdkStorageRead m key.ptr key.bytes.length bufPtr vm =
      some (received m bufPtr answer, vm') := bind_of_eq hrun
  have hheld : stored vm key.bytes = storage.lookup key.bytes := h key.bytes
  simp only [SameCall, Suits, mockStorageRead, hsdk, ← hheld]
  rcases hcases with ⟨hnone, hr⟩ | ⟨value, hsome, ⟨hnot, hr⟩ | ⟨hk, hb, m', hwrite, rfl⟩⟩
  · rw [hnone, hr]
    exact iff_of_true ⟨m, vm', rfl, fun _ _ => rfl, hsame⟩ nofun
  · rw [hsome, hr]
    refine iff_of_false ?_ fun hs => hnot ?_
    · rintro ⟨m', vm'', he, -⟩
      cases he
    · obtain ⟨-, hlen, hk, hb⟩ := hs value rfl
      exact ⟨hk, hb, by omega⟩
  · rw [hsome]
    by_cases hlen : value.length ≤ bufferLen
    · rw [received_value hlen hwrite]
      constructor
      · rintro ⟨m'', vm'', he, -⟩ v hv
        obtain rfl := Option.some.inj hv
        refine ⟨fun hnil => ?_, hlen, hk, hb⟩
        rw [if_pos hnil] at he
        cases he
      · intro hs
        rw [if_neg (hs value rfl).1]
        refine ⟨m', vm', rfl, fun i hi => write_outside hwrite fun hin => hi ?_, hsame⟩
        exact ⟨hin.1, by omega⟩
    · refine iff_of_false ?_ fun hs => hlen (hs value rfl).2.1
      rintro ⟨m'', vm'', he, -⟩
      have hfst := congrArg (fun r => r.map fun p => p.1.1) he
      exact hlen (length_received value (Option.some.inj hfst))

end

/-! ### Sequences of calls -/

section
variable {st : VmState M Database × Table Bytes Bytes} {c : SdkCall}

theorem sameCall_iff (h : SameStorage st) (hgas : HasGas st.1 c.cost) :
    SameCall st c ↔ Suits st.2 c := by
  cases c with
  | write m hsize key value => exact sameCall_write_iff h hsize key value
  | read m hsize key bufPtr hbuf => exact sameCall_read_iff h hgas hsize key hbuf

theorem SameCall.next (hc : SameCall st c) : SameStorage (sdkNext st c) := by
  cases c with
  | write m hsize key value =>
    obtain ⟨vm', hrun, hsame⟩ := hc
    simp only [sdkNext, SdkCall.onTarget, SdkCall.onMock, hrun]
    exact hsame
  | read m hsize key bufPtr hbuf =>
    obtain ⟨m', vm', hrun, -, hsame⟩ := hc
    simp only [sdkNext, SdkCall.onTarget, SdkCall.onMock, hrun]
    exact hsame

variable {vm : VmState M Database}

theorem meter_getD {α : Type} (hwf : vm.context.gasMeter.Wf) {n : ℕ} {x : VmM M Database α}
    (hx : Keeps (Consumes n) x) :
    ∃ k ≤ n, (((x vm).map Prod.snd).getD vm).context.gasMeter = vm.context.gasMeter.after k := by
  cases hrun : x vm with
  | none => exact ⟨0, Nat.zero_le _, (GasMeter.after_zero hwf).symm⟩
  | some r => exact ⟨n, le_rfl, (hx _ _ _ hrun).trans (GasMeter.consume_snd hwf _)⟩

theorem meter_onTarget (hwf : vm.context.gasMeter.Wf) (c : SdkCall) :
    ∃ n ≤ c.cost, (c.onTarget vm).context.gasMeter = vm.context.gasMeter.after n := by
  cases c with
  | write m hsize key value =>
    exact meter_getD hwf (Keeps.seq (meteredRelation_meter.after _)
      (consumes_hostStorageWrite _ _ _ _ _) fun _ => meteredRelation_meter.pure _)
  | read m hsize key bufPtr hbuf =>
    exact meter_getD hwf (Keeps.seq (meteredRelation_meter.after _)
      (consumes_hostStorageRead _ _ _ _) fun _ => meteredRelation_meter.pure _)

theorem meter_foldl (hwf : vm.context.gasMeter.Wf) (storage : Table Bytes Bytes)
    (calls : List SdkCall) :
    ∃ n ≤ (calls.map SdkCall.cost).sum,
      (calls.foldl sdkNext (vm, storage)).1.context.gasMeter = vm.context.gasMeter.after n := by
  induction calls using List.reverseRecOn with
  | nil => exact ⟨0, le_rfl, (GasMeter.after_zero hwf).symm⟩
  | append_singleton calls c ih =>
    obtain ⟨n, hn, hmeter⟩ := ih
    obtain ⟨k, hk, hstep⟩ := meter_onTarget (hmeter ▸ hwf.after n) c
    refine ⟨n + k, ?_, ?_⟩
    · rw [List.map_append, List.sum_append, List.map_singleton, List.sum_singleton]
      exact Nat.add_le_add hn hk
    · rw [List.foldl_append, ← GasMeter.after_after, ← hmeter]
      exact hstep

theorem snd_foldl (vm : VmState M Database) (storage : Table Bytes Bytes) (calls : List SdkCall) :
    (calls.foldl sdkNext (vm, storage)).2 = calls.foldl SdkCall.onMock storage := by
  induction calls using List.reverseRecOn with
  | nil => rfl
  | append_singleton calls c ih =>
    rw [List.foldl_append, List.foldl_append, ← ih]
    rfl

end

/-- **The storage of the SDK behaves the same** on the target as in the mock, in exactly the
sequences of calls in which every read meets no value, or one that is not empty and fits into the
buffer, and in which the host can reach the buffers. -/
theorem storageAgrees_iff {vm : VmState M Database} {storage : Table Bytes Bytes}
    (hstart : SameStorage (vm, storage)) (hlimit : vm.context.gasMeter.limit < 2 ^ 64)
    (calls : List SdkCall)
    (hgas : vm.context.gasMeter.consumed + (calls.map SdkCall.cost).sum ≤
      vm.context.gasMeter.limit) :
    (∀ p c, p ++ [c] <+: calls → SameCall (p.foldl sdkNext (vm, storage)) c) ↔
      ∀ p c, p ++ [c] <+: calls → Suits (p.foldl SdkCall.onMock storage) c := by
  have hwf : vm.context.gasMeter.Wf := ⟨by omega, hlimit⟩
  induction calls using List.reverseRecOn with
  | nil => simp
  | append_singleton calls c ih =>
    rw [List.map_append, List.sum_append, List.map_singleton, List.sum_singleton] at hgas
    have hbefore := ih (by omega)
    rw [forall_step_concat, forall_step_concat]
    refine (and_congr_right fun hsame => ?_).trans (and_congr_left' hbefore)
    have hstorage : SameStorage (calls.foldl sdkNext (vm, storage)) :=
      foldl_invariant_of_steps hstart (fun _ _ _ => SameCall.next) hsame
    obtain ⟨n, hn, hmeter⟩ := meter_foldl hwf storage calls
    rw [sameCall_iff hstorage, snd_foldl]
    unfold HasGas
    rw [hmeter]
    exact ⟨by simp only [GasMeter.after]; omega, hlimit⟩

def fresh : VmState Unit Database :=
  ⟨.new Address.zero Address.zero (addressOfBytes [9]) 0 0 0 0 100000, Database.empty, ∅, false⟩

theorem sameStorage_fresh : SameStorage (fresh, ∅) := fun key => by
  unfold stored fresh
  rfl

/-- A page that begins with 8192 times the byte `1`. -/
def filledPage : Memory := ⟨65536, fun i => if i < 8192 then 1 else 0⟩

theorem filledPage_read {n : ℕ} (h : n ≤ 8192) :
    filledPage.read 0 n = some (List.replicate n 1) := by
  rw [Memory.read, if_pos (by simp only [filledPage]; omega)]
  refine congrArg some (List.eq_replicate_iff.mpr ⟨by simp, fun b hb => ?_⟩)
  obtain ⟨i, hi, rfl⟩ := List.mem_map.mp hb
  have hlt := List.mem_range.mp hi
  exact if_pos (by omega)

/-- The slice of the first `n` bytes of the page. -/
def firstBytes (n : ℕ) (h : n ≤ 8192) : Buffer filledPage :=
  ⟨0, List.replicate n 1, by decide, by rw [List.length_replicate]; omega, by
    rw [List.length_replicate, filledPage_read h]⟩

/-- A write of the value of `n` bytes under the key of one byte. -/
def writeFirst (n : ℕ) (h : n ≤ 8192) : SdkCall :=
  .write filledPage (by decide) (firstBytes 1 (by decide)) (firstBytes n h)

/-- A read of that key into the bytes behind the first 8192. -/
def readFirst : SdkCall := .read filledPage (by decide) (firstBytes 1 (by decide)) 8192 (by decide)

/-- A value of one byte is read back. -/
theorem storageAgrees_one_byte :
    SameStorage (fresh, ∅) ∧
      ∀ p c, p ++ [c] <+: [] ++ [writeFirst 1 (by decide)] ++ [readFirst] →
        SameCall (p.foldl sdkNext (fresh, ∅)) c := by
  refine ⟨sameStorage_fresh, (storageAgrees_iff sameStorage_fresh (by decide) _
    (by decide)).mpr ?_⟩
  rw [forall_step_concat, forall_step_concat]
  refine ⟨⟨by simp, .inl ⟨by decide, by decide⟩⟩, fun value hvalue => ?_⟩
  obtain rfl : [1] = value := Option.some.inj hvalue
  exact ⟨by decide, by decide, by decide, by decide⟩

theorem read_empty :
    ¬ SameCall ([writeFirst 0 (by decide)].foldl sdkNext (fresh, ∅)) readFirst := by
  rintro ⟨m', vm', hrun, -⟩
  have hanswer := congrArg (Option.map fun r => r.1.1) hrun
  simp only [Option.map_some] at hanswer
  revert hanswer
  clear hrun
  decide +kernel

theorem read_long {n : ℕ} (h : n ≤ 8192) (hlong : bufferLen < n) :
    ∃ r vm', sdkStorageRead filledPage 0 1 8192 ((writeFirst n h).onTarget fresh) = some (r, vm') ∧
      r.2.byte (8192 + bufferLen) = 1 := by
  obtain ⟨vm, hwrite, hstored⟩ := sdkStorageWrite_run (by decide) (firstBytes 1 (by decide))
    (firstBytes n h) fresh
  have hafter : (writeFirst n h).onTarget fresh = vm :=
    congrArg (fun r => (r.map Prod.snd).getD fresh) hwrite
  obtain ⟨k, hk, hmeter⟩ := meter_onTarget (⟨by decide, by decide⟩ : fresh.context.gasMeter.Wf)
    (writeFirst n h)
  rw [hafter] at hmeter
  have hgas : HasGas vm gasCosts.storageRead := by
    have hcost : (writeFirst n h).cost = 5000 := rfl
    unfold HasGas
    rw [hmeter]
    exact ⟨show min 100000 (0 + k) + 200 ≤ 100000 by omega, show 100000 < 2 ^ 64 by decide⟩
  obtain ⟨answer, vm', hread, -, hcases⟩ := hostStorageRead_cases hgas (by decide)
    (firstBytes 1 (by decide)) (show 8192 + bufferLen ≤ filledPage.size by decide)
  have hheld : stored vm (firstBytes 1 (by decide)).bytes = some (firstBytes n h).bytes := by
    rw [hstored, if_pos ⟨by decide, Nat.two_pow_pos 31, rfl⟩]
  have hlen : (firstBytes n h).bytes.length = n := List.length_replicate
  rw [hheld] at hcases
  rcases hcases with ⟨hnone, -⟩ | ⟨value, hvalue, ⟨hnot, -⟩ | ⟨-, -, m', hm, rfl⟩⟩
  · cases hnone
  · obtain rfl := Option.some.inj hvalue
    exact absurd ⟨by decide, by decide, show _ ≤ 65536 by omega⟩ hnot
  · obtain rfl := Option.some.inj hvalue
    rw [hafter]
    refine ⟨_, vm', bind_of_eq hread, ?_⟩
    rw [received_snd, Option.getD_some]
    unfold Memory.write at hm
    split_ifs at hm
    obtain rfl := Option.some.inj hm
    dsimp only
    rw [if_pos ⟨by omega, by omega⟩, Nat.add_sub_cancel_left]
    change (List.replicate n 1).getD bufferLen 0 = 1
    rw [List.getD_eq_getElem?_getD, List.getElem?_replicate_of_lt hlong, Option.getD_some]

/-- **An empty value** is read as none, and the read of **a value that is longer** than the buffer
writes behind it. -/
theorem not_storageAgrees_empty_or_long :
    SameStorage (fresh, ∅) ∧
      ¬ SameCall ([writeFirst 0 (by decide)].foldl sdkNext (fresh, ∅)) readFirst ∧
      filledPage.byte (8192 + bufferLen) = 0 ∧
      ∃ r vm', sdkStorageRead filledPage 0 1 8192 ((writeFirst 4097 (by decide)).onTarget fresh) =
          some (r, vm') ∧ r.2.byte (8192 + bufferLen) = 1 :=
  ⟨sameStorage_fresh, read_empty, by decide, read_long (by decide) (by decide)⟩

end Rustchain.Contracts
