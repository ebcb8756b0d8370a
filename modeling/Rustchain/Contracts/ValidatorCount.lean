import Rustchain.Contracts.Ownership

/-! # The count of the bridge validators

`add_validator` sets a flag for an address and adds one to a count, and `remove_validator` clears
the flag and takes one from it. Neither looks at the flag, so that an address added twice is counted
twice, and one removed without being there is taken off for another. The count is right exactly in
the runs in which every added address is new and every removed one is there, or none is
(`validatorCount_right_iff`). -/

namespace Rustchain.Contracts.Bridge

open Rustchain.Core Lib.Machine Lib.Keys Lib.Runs
open Vm (addressOfBytes)
open ContractState

/-- A call of one of the two functions, with any arguments and at any time. -/
inductive ValidatorCall where
  | add (args : Bytes) (timestamp : ℕ)
  | remove (args : Bytes) (timestamp : ℕ)

def ValidatorCall.op (owner : Address) : ValidatorCall → Op
  | .add args timestamp => .call ⟨owner, timestamp⟩ (.addValidator args)
  | .remove args timestamp => .call ⟨owner, timestamp⟩ (.removeValidator args)

def afterValidatorCalls (owner : Address) (s : ContractState) (calls : List ValidatorCall) :
    ContractState :=
  calls.foldl (fun s c => next s (c.op owner)) s

noncomputable def flagged (s : ContractState) : Finset Address :=
  Finset.univ.filter fun a => s.readBool (validatorKey a) = true

/-- The stored count is the number of flags. -/
def CountRight (s : ContractState) : Prop := s.readU64 validatorCountKey = (flagged s).card

/-- The address in the arguments of the two functions, which refuse less than 20 bytes. -/
def addressArg (args : Bytes) : Option Address :=
  if argsLen args < 20 then none else some (addressOfBytes (args.take 20))

/-- **The call keeps the count right**: it adds a new address, for which there is room in the count,
or removes one that is there, or removes one when none is. -/
def ValidatorCall.Counted (s : ContractState) : ValidatorCall → Prop
  | .add args _ => ∀ a ∈ addressArg args, a ∉ flagged s ∧ (flagged s).card + 1 < 2 ^ 64
  | .remove args _ => ∀ a ∈ addressArg args, a ∈ flagged s ∨ flagged s = ∅

/-! ### The flags -/

theorem mem_flagged {s : ContractState} {a : Address} :
    a ∈ flagged s ↔ s.readBool (validatorKey a) = true := by
  rw [flagged, Finset.mem_filter]
  exact and_iff_right (Finset.mem_univ a)

theorem validatorKey_inj {a b : Address} : validatorKey a = validatorKey b ↔ a = b :=
  ⟨fun h => Address.asBytes_injective (Words.key_inj.mp h), congrArg _⟩

theorem readBool_writeBool_validatorKey (s : ContractState) (a b : Address) (value : Bool) :
    (s.writeBool (validatorKey a) value).readBool (validatorKey b) =
      if b = a then value else s.readBool (validatorKey b) := by
  split_ifs with h
  · rw [h, readBool_of_storageRead (storageRead_writeBool_self s _ value)]
  · exact (reads_congr (storageRead_storageWrite_of_ne s (mt validatorKey_inj.mp h) _)).2.2.1

theorem flagged_storeValidator (s : ContractState) (a : Address) :
    flagged (storeValidator s a) = insert a (flagged s) := by
  ext b
  have hread : (storeValidator s a).readBool (validatorKey b) =
      (s.writeBool (validatorKey a) true).readBool (validatorKey b) :=
    (reads_congr (storageRead_writeU64_key (by decide) _ [] b.asBytes _)).2.2.1
  rw [Finset.mem_insert, mem_flagged, mem_flagged, hread, readBool_writeBool_validatorKey]
  split_ifs with h
  · simp [h]
  · simp [h]

theorem flagged_dropValidator (s : ContractState) (a : Address) :
    flagged (dropValidator s a) = (flagged s).erase a := by
  ext b
  have hread : (dropValidator s a).readBool (validatorKey b) =
      (s.writeBool (validatorKey a) false).readBool (validatorKey b) := by
    unfold dropValidator
    rw [(reads_congr (storageRead_emitEvent _ _ _)).2.2.1]
    split_ifs
    · exact (reads_congr (storageRead_writeU64_key (by decide) _ [] b.asBytes _)).2.2.1
    · rfl
  rw [Finset.mem_erase, mem_flagged, mem_flagged, hread, readBool_writeBool_validatorKey]
  split_ifs with h
  · simp [h]
  · simp [h]

theorem flagged_init_new (env : CallEnv) (address : Address) :
    flagged (init env (.new address)) = ∅ := by
  refine Finset.filter_eq_empty_iff.mpr fun a _ => ?_
  have heffect : Effect env (.new address) .init 0 (init env (.new address)) := .init
  have hframe : (init env (.new address)).readBool (validatorKey a) =
      (ContractState.new address).readBool (validatorKey a) :=
    (reads_congr (heffect.frame (w := .validator) (by decide) a.asBytes)).2.2.1
  rw [hframe]
  exact Bool.false_ne_true

/-! ### One call -/

section
variable {owner : Address} {s : ContractState}

theorem addressArg_cases (args : Bytes) :
    argsLen args < 20 ∧ addressArg args = none ∨
      ¬ argsLen args < 20 ∧ slice args 0 20 = .ok (args.take 20) ∧
        addressArg args = some (addressOfBytes (args.take 20)) := by
  by_cases h : argsLen args < 20
  · exact .inl ⟨h, if_pos h⟩
  · exact .inr ⟨h, if_pos ⟨Nat.zero_le _, le_length_of_argsLen h⟩, if_neg h⟩

theorem next_of_address {env : CallEnv} {e : Entry} {args : Bytes}
    {f : ContractState → Address → ContractState}
    (hshort : argsLen args < 20 → call env s e = .ok (-1, s))
    (hread : ¬ argsLen args < 20 → slice args 0 20 = .ok (args.take 20) →
      call env s e = .ok (0, f s (addressOfBytes (args.take 20)))) :
    next s (.call env e) = ((addressArg args).map (f s)).getD s := by
  rcases addressArg_cases args with ⟨hlen, harg⟩ | ⟨hlen, hslice, harg⟩
  · rw [harg]
    exact next_of_ok (hshort hlen)
  · rw [harg]
    exact next_of_ok (hread hlen hslice)

theorem next_add (howner : s.readAddress ownerKey = owner) (args : Bytes) (timestamp : ℕ) :
    next s (ValidatorCall.op owner (.add args timestamp)) =
      ((addressArg args).map (storeValidator s)).getD s := by
  have hreq : requireOwner ⟨owner, timestamp⟩ s = .ok () := requireOwner_eq_ok.mpr howner.symm
  refine next_of_address (fun hlen => ?_) fun hlen hslice => ?_
  · simp only [call, addValidator, hreq, if_pos hlen]
    rfl
  · simp only [call, addValidator, hreq, if_neg hlen, hslice]
    rfl

theorem next_remove (howner : s.readAddress ownerKey = owner) (args : Bytes) (timestamp : ℕ) :
    next s (ValidatorCall.op owner (.remove args timestamp)) =
      ((addressArg args).map (dropValidator s)).getD s := by
  have hreq : requireOwner ⟨owner, timestamp⟩ s = .ok () := requireOwner_eq_ok.mpr howner.symm
  refine next_of_address (fun hlen => ?_) fun hlen hslice => ?_
  · simp only [call, removeValidator, hreq, if_pos hlen]
    rfl
  · simp only [call, removeValidator, hreq, if_neg hlen, hslice]
    rfl

theorem readAddress_next (howner : s.readAddress ownerKey = owner) (c : ValidatorCall) :
    (next s (c.op owner)).readAddress ownerKey = owner := by
  rw [← howner]
  cases c with
  | add args timestamp => exact (reads_congr (storageRead_next (by simp [Entry.touches]))).2.2.2
  | remove args timestamp => exact (reads_congr (storageRead_next (by simp [Entry.touches]))).2.2.2

theorem countRight_storeValidator_iff (h : CountRight s) (a : Address) :
    CountRight (storeValidator s a) ↔ a ∉ flagged s ∧ (flagged s).card + 1 < 2 ^ 64 := by
  have hlt : (flagged s).card < 2 ^ 64 := h ▸ readU64_lt s validatorCountKey
  unfold CountRight
  rw [readU64_storeValidator, flagged_storeValidator, h]
  show ((flagged s).card + 1) % 2 ^ 64 = _ ↔ _
  by_cases ha : a ∈ flagged s
  · rw [Finset.insert_eq_of_mem ha]
    refine iff_of_false ?_ fun hn => hn.1 ha
    omega
  · rw [Finset.card_insert_of_notMem ha, and_iff_right ha]
    omega

theorem countRight_dropValidator_iff (h : CountRight s) (a : Address) :
    CountRight (dropValidator s a) ↔ a ∈ flagged s ∨ flagged s = ∅ := by
  unfold CountRight
  rw [readU64_dropValidator, flagged_dropValidator, h]
  by_cases ha : a ∈ flagged s
  · exact iff_of_true (Finset.card_erase_of_mem ha).symm (.inl ha)
  · rw [Finset.erase_eq_of_notMem ha, or_iff_right ha, ← Finset.card_eq_zero]
    omega

theorem countRight_next_iff (howner : s.readAddress ownerKey = owner) (h : CountRight s)
    (c : ValidatorCall) : CountRight (next s (c.op owner)) ↔ c.Counted s := by
  cases c with
  | add args timestamp =>
    rw [next_add howner, ValidatorCall.Counted]
    cases addressArg args with
    | none => exact iff_of_true h nofun
    | some a =>
      rw [Option.map_some, Option.getD_some, countRight_storeValidator_iff h]
      simp
  | remove args timestamp =>
    rw [next_remove howner, ValidatorCall.Counted]
    cases addressArg args with
    | none => exact iff_of_true h nofun
    | some a =>
      rw [Option.map_some, Option.getD_some, countRight_dropValidator_iff h]
      simp

end

/-- **The validator count is right** after every call of a sequence of the owner of a new contract,
if and only if every call of the sequence is a counted one. -/
theorem validatorCount_right_iff (env : CallEnv) (address : Address) (calls : List ValidatorCall) :
    (∀ p, p <+: calls → CountRight (afterValidatorCalls env.caller (init env (.new address)) p)) ↔
      ∀ p c, p ++ [c] <+: calls →
        c.Counted (afterValidatorCalls env.caller (init env (.new address)) p) := by
  obtain ⟨howner, -, -, hcount, -⟩ := reads_init env (.new address)
  have hstart : CountRight (init env (.new address)) := by
    rw [CountRight, flagged_init_new, Finset.card_empty, hcount]
  unfold afterValidatorCalls
  rw [forall_prefix_iff_step, and_iff_right hstart]
  -- the owner stays the same, and the count is right up to the call
  exact forall_step_iff (I := fun s => s.readAddress ownerKey = env.caller ∧ CountRight s)
    ⟨howner, hstart⟩ (fun s c hs hc => ⟨readAddress_next hs.1 c, hc⟩)
    (fun s c hs => countRight_next_iff hs.1 hs.2 c) calls

/-- An address that is added twice is counted twice, and has one flag. -/
theorem added_twice_counted_twice :
    let s := afterValidatorCalls (addressOfBytes [1])
      (init ⟨addressOfBytes [1], 0⟩ (.new (addressOfBytes [9])))
      [.add (addressOfBytes [2]).asBytes 1, .add (addressOfBytes [2]).asBytes 2]
    s.readU64 validatorCountKey = 2 ∧ flagged s = {addressOfBytes [2]} := by
  have hrun : afterValidatorCalls (addressOfBytes [1])
      (init ⟨addressOfBytes [1], 0⟩ (.new (addressOfBytes [9])))
      [.add (addressOfBytes [2]).asBytes 1, .add (addressOfBytes [2]).asBytes 2] =
        storeValidator (storeValidator
          (init ⟨addressOfBytes [1], 0⟩ (.new (addressOfBytes [9]))) (addressOfBytes [2]))
          (addressOfBytes [2]) := rfl
  refine ⟨by decide +kernel, ?_⟩
  rw [hrun, flagged_storeValidator, flagged_storeValidator, flagged_init_new]
  rfl

end Rustchain.Contracts.Bridge
