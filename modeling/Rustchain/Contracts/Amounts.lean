import Rustchain.Contracts.Hosting

/-! # Amounts at the host boundary

`sdk::transfer` takes a `u64`, hands it over as an `i64`, and the host extends its sign to a `u128`;
`sdk::self_balance` gets a `u128` cut to an `i64` and reads it as a `u64`. An amount survives the
way there exactly when it is below `2 ^ 63`, and a balance the way back exactly when it is below
`2 ^ 64` (`amountsSurvive_iff`). -/

namespace Rustchain.Contracts

open Rustchain.Core Storage Lib.Machine Lib.Maps Lib.Partial
open Vm hiding Trap

variable {M : Type}

/-- `sdk::transfer` on the target, for an address at `toPtr` in its memory. -/
def sdkTransfer (toPtr : Int32) (amount : ℕ) (m : Memory) : VmM M Database Bool := do
  let (answer, _) ← hostTransfer toPtr (Int64.ofNat amount) (some m)
  return decide (answer = .i32 0)

/-- `sdk::self_balance` on the target. -/
def sdkSelfBalance (m : Memory) : VmM M Database ℕ := do
  let (answer, _) ← hostSelfBalance (some m)
  return match answer with
    | .i64 b => b.toUInt64.toNat
    | _ => 0

/-- The balance of an address, as `get_balance` sees it. -/
def seen (vm : VmState M Database) (a : Address) : ℕ :=
  (seenBalance (storedBalance vm.storage a) (vm.context.delta a)).val

/-- Exactly `amount` has moved from one delta to the other. -/
def Moved (c c' : ExecutionContext) (source target : Address) (amount : ℤ) : Prop :=
  ∀ a, c'.delta a = c.delta a - (if a = source then amount else 0) +
    if a = target then amount else 0

/-- **Amounts survive the host boundary**, for a transfer to the address that stands at `toPtr`. -/
structure AmountsSurvive (vm : VmState M Database) (m : Memory) (toPtr : Int32) (target : Address)
    (amount : ℕ) : Prop where
  /-- A transfer succeeds exactly when the balance covers it, and moves exactly the amount. -/
  transfer : ∃ vm', sdkTransfer toPtr amount m vm =
      some (decide (amount ≤ seen vm vm.context.contractAddress), vm') ∧
    Moved vm.context vm'.context vm.context.contractAddress target
      (if amount ≤ seen vm vm.context.contractAddress then amount else 0)
  /-- A balance that is a `u64` is returned. -/
  selfBalance : seen vm vm.context.contractAddress < 2 ^ 64 →
    (sdkSelfBalance m vm).map Prod.fst = some (seen vm vm.context.contractAddress)
  /-- A larger one is not returned modulo `2 ^ 64`. -/
  notReduced : 2 ^ 64 ≤ seen vm vm.context.contractAddress →
    (sdkSelfBalance m vm).map Prod.fst ≠ some (seen vm vm.context.contractAddress % 2 ^ 64)

/-! ### Deltas -/

section
variable {c : ExecutionContext} {source target : Address} {a : ℤ}

theorem moved_congr {c' c'' : ExecutionContext} (h : ∀ b, c''.delta b = c'.delta b) :
    Moved c c'' source target a ↔ Moved c c' source target a :=
  forall_congr' fun b => by rw [h b]

theorem moved_iff (hne : target ≠ source) :
    Moved c (c.moved source target a).val source target a ↔
      InRangeI 128 (c.delta source - a) ∧ InRangeI 128 (c.delta target + a) := by
  have hdelta : ∀ b, (c.moved source target a).val.delta b =
      if b = target then (fitI 128 (c.delta target + a)).val
      else if b = source then (fitI 128 (c.delta source - a)).val else c.delta b := by
    intro b
    show ((c.withDelta source _).withDelta target
      (addI 128 ((c.withDelta source _).delta target) a).val).delta b = _
    rw [delta_withDelta, delta_withDelta, delta_withDelta, if_neg hne]
    rfl
  unfold Moved
  constructor
  · intro h
    have hs := h source
    have ht := h target
    rw [hdelta, if_neg (Ne.symm hne), if_pos rfl, if_pos rfl, if_neg (Ne.symm hne)] at hs
    rw [hdelta, if_pos rfl, if_neg hne, if_pos rfl] at ht
    rw [add_zero] at hs
    rw [sub_zero] at ht
    exact ⟨(fitI_val_eq_iff (by decide)).mp hs, (fitI_val_eq_iff (by decide)).mp ht⟩
  · rintro ⟨hs, ht⟩ b
    rw [hdelta, (fitI_val_eq_iff (by decide)).mpr hs, (fitI_val_eq_iff (by decide)).mpr ht]
    split_ifs with h1 h2 h2
    · exact absurd (h1.symm.trans h2) hne
    · rw [h1, sub_zero]
    · rw [h2, add_zero]
    · rw [sub_zero, add_zero]

theorem moved_self (hd : InRangeI 128 (c.delta source)) :
    Moved c (c.moved source source a).val source source a := by
  intro b
  show ((c.withDelta source _).withDelta source
    (addI 128 ((c.withDelta source (subI 128 (c.delta source) a).val).delta source) a).val).delta
      b = _
  rw [delta_withDelta, delta_withDelta, delta_withDelta, if_pos rfl, addI_subI_val (by decide) hd]
  split_ifs with h
  · rw [h, Int.sub_add_cancel]
  · rw [sub_zero, add_zero]

end

/-! ### The host -/

section
variable {vm : VmState M Database} {m : Memory} {toPtr : Int32} {target : Address} {amount : ℕ}

theorem seen_lt (vm : VmState M Database) (a : Address) : seen vm a < 2 ^ 127 := by
  have hwrap := Int.bmod_lt
    (x := (toSigned 128 (storedBalance vm.storage a)).val + vm.context.delta a)
    (Nat.two_pow_pos 128)
  unfold seen
  rw [seenBalance_val, addI, fitI_val_eq_wrapI (by decide), wrapI]
  omega

theorem transfer_run (source target : Address) (amount : ℕ) (vm : VmState M Database) :
    ∃ (r : Except VmError Unit) (vm' : VmState M Database),
      Vm.transfer source target amount vm = some (r, vm') ∧
      r.isOk = decide (amount ≤ seen vm source) ∧
      vm'.context = if amount ≤ seen vm source then
        (vm.context.moved source target (toSigned 128 amount).val).val else vm.context := by
  obtain hlt | hle := Nat.lt_or_ge (seen vm source) amount
  · rw [if_neg (Nat.not_le.mpr hlt), decide_eq_false (Nat.not_le.mpr hlt)]
    exact ⟨_, _, transfer_of_lt (getBalance_run source vm) hlt, rfl, rfl⟩
  · rw [if_pos hle, decide_eq_true hle]
    exact ⟨_, _, transfer_of_le (getBalance_run source vm) hle, rfl, rfl⟩

theorem sdkTransfer_run (hgas : HasGas vm gasCosts.transfer)
    (hto : m.read (asUsize toPtr) 20 = some target.asBytes) (amount : ℕ) :
    ∃ vm', sdkTransfer toPtr amount m vm = some (decide (asU128 (Int64.ofNat amount) ≤
        seen vm vm.context.contractAddress), vm') ∧
      ∀ a, vm'.context.delta a =
        if asU128 (Int64.ofNat amount) ≤ seen vm vm.context.contractAddress then
          (vm.context.moved vm.context.contractAddress target
            (toSigned 128 (asU128 (Int64.ofNat amount))).val).val.delta a
        else vm.context.delta a := by
  obtain ⟨r, vm', hrun, hr, hctx⟩ := transfer_run vm.context.contractAddress target
    (asU128 (Int64.ofNat amount)) (charged vm gasCosts.transfer)
  have hseen : seen (charged vm gasCosts.transfer) vm.context.contractAddress =
      seen vm vm.context.contractAddress := rfl
  rw [hseen] at hr hctx
  refine ⟨vm', ?_, fun a => ?_⟩
  · unfold sdkTransfer hostTransfer
    rw [bind_apply, bind_of_eq (consumeGas_run hgas)]
    dsimp only
    rw [hto]
    dsimp only
    rw [bind_of_eq (getContext_run _), ContractState.addressOfBytes_asBytes]
    have haddress : (charged vm gasCosts.transfer).context.contractAddress =
        vm.context.contractAddress := rfl
    rw [haddress, bind_of_eq hrun, ← hr]
    cases r <;> rfl
  · rw [hctx]
    split_ifs <;> rfl

theorem sdkSelfBalance_run (vm : VmState M Database) (m : Memory) :
    (sdkSelfBalance m vm).map Prod.fst =
      some (seen vm vm.context.contractAddress % 2 ^ 64) := by
  unfold sdkSelfBalance hostSelfBalance
  rw [bind_apply, bind_of_eq (getContext_run _), bind_of_eq (getBalance_run _ _)]
  exact congrArg some UInt64.toNat_ofNat'

/-- **A transfer is exact** if it is not covered; if it is, when its amount is below `2 ^ 63` and
the deltas stay in their type. -/
theorem sdkTransfer_exact_iff (hgas : HasGas vm gasCosts.transfer) (hamount : amount < 2 ^ 64)
    (hto : m.read (asUsize toPtr) 20 = some target.asBytes)
    (hdelta : InRangeI 128 (vm.context.delta vm.context.contractAddress)) :
    (∃ vm', sdkTransfer toPtr amount m vm =
        some (decide (amount ≤ seen vm vm.context.contractAddress), vm') ∧
      Moved vm.context vm'.context vm.context.contractAddress target
        (if amount ≤ seen vm vm.context.contractAddress then amount else 0)) ↔
      (amount ≤ seen vm vm.context.contractAddress → amount < 2 ^ 63 ∧
        (target = vm.context.contractAddress ∨
          InRangeI 128 (vm.context.delta vm.context.contractAddress - amount) ∧
          InRangeI 128 (vm.context.delta target + amount))) := by
  have hlt := seen_lt vm vm.context.contractAddress
  obtain ⟨vm', hrun, hmoved⟩ := sdkTransfer_run hgas hto amount
  rw [ContractState.asU128_ofNat hamount] at hrun hmoved
  generalize seen vm vm.context.contractAddress = b at *
  by_cases hle : amount ≤ b
  · by_cases hsmall : amount < 2 ^ 63
    · have hsigned : (toSigned 128 amount).val = amount :=
        congrArg Flagged.val (fitI_128 (by omega) (by omega))
      simp only [if_pos hsmall, if_pos hle, hsigned] at hrun hmoved
      simp only [hrun, Option.some.injEq, Prod.mk.injEq, true_and, exists_eq_left', hle, hsmall,
        forall_const, moved_congr hmoved, if_true]
      by_cases hself : target = vm.context.contractAddress
      · subst hself
        exact iff_of_true (moved_self hdelta) (.inl rfl)
      · rw [moved_iff hself, or_iff_right hself]
    · -- the sign of the `i64` makes the amount larger than any balance
      rw [if_neg hsmall, decide_eq_false (by omega)] at hrun
      refine iff_of_false ?_ fun h => hsmall (h hle).1
      rintro ⟨vm'', hrun', -⟩
      rw [hrun, decide_eq_true hle] at hrun'
      cases hrun'
  · have hrefused : ¬ (if amount < 2 ^ 63 then amount else 2 ^ 128 - 2 ^ 64 + amount) ≤ b := by
      split_ifs <;> omega
    rw [decide_eq_false hrefused] at hrun
    refine iff_of_true ⟨vm', by rw [hrun, decide_eq_false hle], fun a => ?_⟩ fun h => absurd h hle
    rw [hmoved, if_neg hrefused, if_neg hle]
    simp

theorem sdkSelfBalance_exact_iff (vm : VmState M Database) (m : Memory) :
    ((seen vm vm.context.contractAddress < 2 ^ 64 →
        (sdkSelfBalance m vm).map Prod.fst = some (seen vm vm.context.contractAddress)) ∧
      (2 ^ 64 ≤ seen vm vm.context.contractAddress →
        (sdkSelfBalance m vm).map Prod.fst ≠
          some (seen vm vm.context.contractAddress % 2 ^ 64))) ↔
      seen vm vm.context.contractAddress < 2 ^ 64 := by
  rw [sdkSelfBalance_run]
  constructor
  · rintro ⟨_, h⟩
    by_contra hlarge
    exact h (by omega) rfl
  · intro h
    exact ⟨fun _ => by rw [Nat.mod_eq_of_lt h], fun hlarge => by omega⟩

end

/-- **Amounts survive the host boundary** exactly when the balance is below `2 ^ 64` and a covered
transfer is below `2 ^ 63`, with deltas that stay in their type. -/
theorem amountsSurvive_iff {vm : VmState M Database} {m : Memory} {toPtr : Int32} {target : Address}
    {amount : ℕ} (hgas : HasGas vm gasCosts.transfer) (hamount : amount < 2 ^ 64)
    (hto : m.read (asUsize toPtr) 20 = some target.asBytes)
    (hdelta : InRangeI 128 (vm.context.delta vm.context.contractAddress)) :
    AmountsSurvive vm m toPtr target amount ↔
      seen vm vm.context.contractAddress < 2 ^ 64 ∧
      (amount ≤ seen vm vm.context.contractAddress → amount < 2 ^ 63 ∧
        (target = vm.context.contractAddress ∨
          InRangeI 128 (vm.context.delta vm.context.contractAddress - amount) ∧
          InRangeI 128 (vm.context.delta target + amount))) := by
  rw [← sdkTransfer_exact_iff hgas hamount hto hdelta, ← sdkSelfBalance_exact_iff vm m]
  constructor
  · rintro ⟨htransfer, hself, hreduced⟩
    exact ⟨⟨hself, hreduced⟩, htransfer⟩
  · rintro ⟨⟨hself, hreduced⟩, htransfer⟩
    exact ⟨htransfer, hself, hreduced⟩

/-- An execution of a contract with a balance, and with gas for a transfer. -/
def holding (balance : ℕ) : VmState Unit Database where
  context := .new Address.zero Address.zero (addressOfBytes [9]) 0 0 0 0 10000
  storage := { Database.empty with
    accounts := Finmap.singleton (addressOfBytes [9]) (Account.new (addressOfBytes [9]) balance) }
  moduleCache := ∅
  overflow := false

def zeroPage : Memory := ⟨65536, fun _ => 0⟩

/-- A balance of 100 and a transfer of 5 survive. -/
theorem amountsSurvive_small :
    HasGas (holding 100) gasCosts.transfer ∧
      zeroPage.read (asUsize 0) 20 = some Address.zero.asBytes ∧
      AmountsSurvive (holding 100) zeroPage 0 Address.zero 5 := by
  have hgas : HasGas (holding 100) gasCosts.transfer := ⟨by decide, by decide⟩
  have hto : zeroPage.read (asUsize 0) 20 = some Address.zero.asBytes := by decide
  refine ⟨hgas, hto, (amountsSurvive_iff hgas (by decide) hto (by decide)).mpr ?_⟩
  decide +kernel

/-- **A balance of `2 ^ 64`** is returned as `0`, and the transfer of `2 ^ 63` that it covers is
refused. -/
theorem not_amountsSurvive_large :
    seen (holding (2 ^ 64)) (addressOfBytes [9]) = 2 ^ 64 ∧
      (sdkSelfBalance zeroPage (holding (2 ^ 64))).map Prod.fst = some 0 ∧
      (sdkTransfer 0 (2 ^ 63) zeroPage (holding (2 ^ 64))).map Prod.fst = some false ∧
      ¬ AmountsSurvive (holding (2 ^ 64)) zeroPage 0 Address.zero (2 ^ 63) := by
  refine ⟨by decide +kernel, by decide +kernel, by decide +kernel, fun h => ?_⟩
  exact h.notReduced (by decide +kernel) (by decide +kernel)

end Rustchain.Contracts
