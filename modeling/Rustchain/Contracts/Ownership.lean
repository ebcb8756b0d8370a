import Rustchain.Contracts.Bridge
import Rustchain.Lib.Runs

/-! # Ownership of the bridge contract

The functions of the owner are refused to everybody else, and no function but `init` writes the
owner, the signature threshold or the fee. But `init` is exported like the others and has no guard:
who calls it again is the owner from then on. Ownership is fixed exactly in the runs in which `init`
is called again only by the deployer, and at a time when it finds what it writes
(`ownershipFixed_iff`). -/

namespace Rustchain.Contracts.Bridge

open Rustchain.Core Lib.Machine Lib.Keys Lib.Runs
open Vm (addressOfBytes)
open ContractState

/-- The functions that call `require_owner`. -/
def Entry.guarded : Entry → Bool
  | .bridgeMint _ | .addValidator _ | .removeValidator _ | .pause | .unpause => true
  | _ => false

/-- **What a call has to keep to** when the contract belongs to its deployer. -/
structure OwnerKept (deployer : Address) (env : CallEnv) (s : ContractState) (e : Entry) :
    Prop where
  passes : requireOwner env s = .ok () → env.caller = deployer
  owner : (next s (.call env e)).readAddress ownerKey = deployer
  guarded : e.guarded = true → env.caller ≠ deployer →
    call env s e = .error (.abort "Only owner can call this function")
  paused : (next s (.call env e)).readBool pausedKey ≠ s.readBool pausedKey →
    e = .pause ∨ e = .unpause
  htlcCount : (next s (.call env e)).readU64 htlcCountKey ≠ s.readU64 htlcCountKey →
    (∃ args, e = .createHtlc args) ∧
      (next s (.call env e)).readU64 htlcCountKey = (addU 64 (s.readU64 htlcCountKey) 1).val
  validatorCount :
    (next s (.call env e)).readU64 validatorCountKey ≠ s.readU64 validatorCountKey →
    (∃ args, e = .addValidator args) ∧ (next s (.call env e)).readU64 validatorCountKey =
        (addU 64 (s.readU64 validatorCountKey) 1).val ∨
      (∃ args, e = .removeValidator args) ∧
        (next s (.call env e)).readU64 validatorCountKey = s.readU64 validatorCountKey - 1
  minSignatures :
    (next s (.call env e)).readU64 minSignaturesKey = s.readU64 minSignaturesKey
  feeBps : (next s (.call env e)).readU64 feeBpsKey = s.readU64 feeBpsKey

/-- The same for a step; a deposit is no call. -/
def OwnershipKept (deployer : Address) (s : ContractState) : Op → Prop
  | .deposit _ => True
  | .call env e => OwnerKept deployer env s e

/-- `init` is called by the deployer, and finds what it writes. -/
def InitHarmless (deployer : Address) (s : ContractState) : Op → Prop
  | .call env .init => env.caller = deployer ∧ s.readBool pausedKey = false ∧
      s.readU64 htlcCountKey = 0 ∧ s.readU64 validatorCountKey = 0
  | _ => True

/-- What holds as long as ownership is kept. -/
structure Owned (deployer : Address) (s : ContractState) : Prop where
  owner : s.readAddress ownerKey = deployer
  minSignatures : s.readU64 minSignaturesKey = 2
  feeBps : s.readU64 feeBpsKey = 10

/-! ### One step -/

section
variable {deployer : Address} {env : CallEnv} {s s' : ContractState} {e : Entry} {code : ℤ}

theorem call_of_guarded (hg : e.guarded = true) (h : env.caller ≠ s.readAddress ownerKey) :
    call env s e = .error (.abort "Only owner can call this function") := by
  have hreq : requireOwner env s = .error (.abort "Only owner can call this function") :=
    if_pos h
  cases e with
  | bridgeMint args => simp only [call, bridgeMint, hreq]; rfl
  | addValidator args => simp only [call, addValidator, hreq]; rfl
  | removeValidator args => simp only [call, removeValidator, hreq]; rfl
  | pause => simp only [call, pause, hreq]; rfl
  | unpause => simp only [call, unpause, hreq]; rfl
  | _ => cases hg

theorem storageRead_next {w : Word} (hw : w ∉ e.touches) :
    (next s (.call env e)).storageRead (words.key w []) = s.storageRead (words.key w []) := by
  rcases call_cases env s e with ⟨t, _, hnext⟩ | ⟨code, s', _, hnext, heff⟩
  · rw [hnext]
  · rw [hnext, heff.frame hw]

theorem readU64_storeHtlc (s : ContractState) (hex data : Bytes) :
    (storeHtlc s (htlcKey hex) data).readU64 htlcCountKey =
      (addU 64 (s.readU64 htlcCountKey) 1).val := by
  have hread : (s.storageWrite (htlcKey hex) data).readU64 htlcCountKey =
      s.readU64 htlcCountKey :=
    (reads_congr (storageRead_storageWrite_key (by decide) s hex [] data)).1
  simp only [storeHtlc, hread]
  rw [(reads_congr (storageRead_emitEvent _ _ _)).1,
    readU64_of_storageRead (storageRead_writeU64_self _ _ _)]
  exact Nat.mod_mod _ _

theorem readU64_storeValidator (s : ContractState) (addr : Address) :
    (storeValidator s addr).readU64 validatorCountKey =
      (addU 64 (s.readU64 validatorCountKey) 1).val := by
  have hread : (s.writeBool (validatorKey addr) true).readU64 validatorCountKey =
      s.readU64 validatorCountKey :=
    (reads_congr (storageRead_writeBool_key (by decide) s addr.asBytes [] true)).1
  simp only [storeValidator, hread]
  rw [(reads_congr (storageRead_emitEvent _ _ _)).1,
    readU64_of_storageRead (storageRead_writeU64_self _ _ _)]
  exact Nat.mod_mod _ _

theorem readU64_dropValidator (s : ContractState) (addr : Address) :
    (dropValidator s addr).readU64 validatorCountKey = s.readU64 validatorCountKey - 1 := by
  have hread : (s.writeBool (validatorKey addr) false).readU64 validatorCountKey =
      s.readU64 validatorCountKey :=
    (reads_congr (storageRead_writeBool_key (by decide) s addr.asBytes [] false)).1
  have hlt := readU64_lt s validatorCountKey
  simp only [dropValidator, hread]
  rw [(reads_congr (storageRead_emitEvent _ _ _)).1]
  split_ifs with hpos
  · rw [readU64_of_storageRead (storageRead_writeU64_self _ _ _)]
    exact Nat.mod_eq_of_lt (by omega)
  · rw [hread]
    omega

theorem htlcCount_next (he : e ≠ .init)
    (h : (next s (.call env e)).readU64 htlcCountKey ≠ s.readU64 htlcCountKey) :
    (∃ args, e = .createHtlc args) ∧
      (next s (.call env e)).readU64 htlcCountKey = (addU 64 (s.readU64 htlcCountKey) 1).val := by
  have hw : .htlcCount ∈ e.touches := by
    by_contra hw
    exact h (reads_congr (storageRead_next hw)).1
  cases e with
  | init => exact absurd rfl he
  | createHtlc args =>
    rcases call_cases env s (.createHtlc args) with ⟨t, _, hnext⟩ | ⟨code, s', _, hnext, heff⟩
    · rw [hnext] at h
      exact absurd rfl h
    · rw [hnext] at h ⊢
      cases heff with
      | refused hq => exact absurd (reads_congr (hq.storageRead htlcCountKey)).1 h
      | created _ _ _ _ _ => exact ⟨⟨args, rfl⟩, readU64_storeHtlc s _ _⟩
  | _ => exact absurd hw (by simp [Entry.touches])

theorem validatorCount_next (he : e ≠ .init)
    (h : (next s (.call env e)).readU64 validatorCountKey ≠ s.readU64 validatorCountKey) :
    (∃ args, e = .addValidator args) ∧ (next s (.call env e)).readU64 validatorCountKey =
        (addU 64 (s.readU64 validatorCountKey) 1).val ∨
      (∃ args, e = .removeValidator args) ∧
        (next s (.call env e)).readU64 validatorCountKey = s.readU64 validatorCountKey - 1 := by
  have hw : .validatorCount ∈ e.touches := by
    by_contra hw
    exact h (reads_congr (storageRead_next hw)).1
  rcases call_cases env s e with ⟨t, _, hnext⟩ | ⟨code, s', _, hnext, heff⟩
  · rw [hnext] at h
    exact absurd rfl h
  · rw [hnext] at h ⊢
    cases e with
    | init => exact absurd rfl he
    | addValidator args =>
      cases heff with
      | refused hq => exact absurd (reads_congr (hq.storageRead validatorCountKey)).1 h
      | validatorAdded _ => exact .inl ⟨⟨args, rfl⟩, readU64_storeValidator s _⟩
    | removeValidator args =>
      cases heff with
      | refused hq => exact absurd (reads_congr (hq.storageRead validatorCountKey)).1 h
      | validatorRemoved _ => exact .inr ⟨⟨args, rfl⟩, readU64_dropValidator s _⟩
    | _ => exact absurd hw (by simp [Entry.touches])

theorem ownerKept_of_ne_init (h : Owned deployer s) (he : e ≠ .init) :
    OwnerKept deployer env s e where
  passes hreq := by rw [← h.owner, requireOwner_eq_ok.mp hreq]
  owner := by
    have hw : .owner ∉ e.touches := by cases e <;> simp_all [Entry.touches]
    rw [← h.owner]
    exact (reads_congr (storageRead_next hw)).2.2.2
  guarded hg hne := call_of_guarded hg (h.owner ▸ hne)
  paused hne := by
    have hw : .paused ∈ e.touches := by
      by_contra hw
      exact hne (reads_congr (storageRead_next hw)).2.2.1
    cases e with
    | init => exact absurd rfl he
    | pause => exact .inl rfl
    | unpause => exact .inr rfl
    | _ => exact absurd hw (by simp [Entry.touches])
  htlcCount := htlcCount_next he
  validatorCount := validatorCount_next he
  minSignatures := by
    have hw : .minSignatures ∉ e.touches := by cases e <;> simp_all [Entry.touches]
    exact (reads_congr (storageRead_next hw)).1
  feeBps := by
    have hw : .feeBps ∉ e.touches := by cases e <;> simp_all [Entry.touches]
    exact (reads_congr (storageRead_next hw)).1

theorem ownerKept_init_iff (h : Owned deployer s) :
    OwnerKept deployer env s .init ↔ env.caller = deployer ∧ s.readBool pausedKey = false ∧
      s.readU64 htlcCountKey = 0 ∧ s.readU64 validatorCountKey = 0 := by
  have hnext : next s (.call env .init) = init env s := next_of_ok rfl
  obtain ⟨howner, hpaused, hhtlcs, hvalidators, hmin, hfee⟩ := reads_init env s
  constructor
  · intro hk
    have hp := hk.paused
    have hc := hk.htlcCount
    have hv := hk.validatorCount
    rw [hnext] at hp hc hv
    rw [hpaused] at hp
    rw [hhtlcs] at hc
    rw [hvalidators] at hv
    refine ⟨by rw [← howner, ← hnext, hk.owner], ?_, ?_, ?_⟩
    · by_contra hne
      rcases hp (Ne.symm hne) with he | he
      · cases he
      · cases he
    · by_contra hne
      obtain ⟨⟨args, he⟩, _⟩ := hc (Ne.symm hne)
      cases he
    · by_contra hne
      rcases hv (Ne.symm hne) with ⟨⟨args, he⟩, _⟩ | ⟨⟨args, he⟩, _⟩
      · cases he
      · cases he
  · rintro ⟨hcaller, hp, hc, hv⟩
    refine ⟨fun _ => hcaller, ?_, nofun, ?_, ?_, ?_, ?_, ?_⟩
    · rw [hnext, howner, hcaller]
    · rw [hnext, hpaused, hp]
      exact fun hne => absurd rfl hne
    · rw [hnext, hhtlcs, hc]
      exact fun hne => absurd rfl hne
    · rw [hnext, hvalidators, hv]
      exact fun hne => absurd rfl hne
    · rw [hnext, hmin, h.minSignatures]
    · rw [hnext, hfee, h.feeBps]

theorem ownershipKept_iff (h : Owned deployer s) (op : Op) :
    OwnershipKept deployer s op ↔ InitHarmless deployer s op := by
  cases op with
  | deposit amount => exact Iff.rfl
  | call env e =>
    by_cases he : e = .init
    · subst he
      exact ownerKept_init_iff h
    · refine iff_of_true (ownerKept_of_ne_init h he) ?_
      cases e with
      | init => exact absurd rfl he
      | _ => trivial

theorem Owned.next (h : Owned deployer s) {op : Op} (hk : OwnershipKept deployer s op) :
    Owned deployer (next s op) := by
  cases op with
  | deposit amount =>
    have hread := fun key => reads_congr (storageRead_deposit s amount key)
    exact ⟨(hread ownerKey).2.2.2.trans h.owner, (hread _).1.trans h.minSignatures,
      (hread _).1.trans h.feeBps⟩
  | call env e =>
    exact ⟨hk.owner, hk.minSignatures.trans h.minSignatures, hk.feeBps.trans h.feeBps⟩

end

/-! ### Runs -/

theorem owned_init (env : CallEnv) (s : ContractState) : Owned env.caller (init env s) := by
  obtain ⟨howner, _, _, _, hmin, hfee⟩ := reads_init env s
  exact ⟨howner, hmin, hfee⟩

/-- **Ownership is fixed at deployment** in exactly the runs in which `init` is called again only
by the deployer, and only when it finds what it writes. -/
theorem ownershipFixed_iff (env : CallEnv) (s : ContractState) (ops : List Op) :
    (∀ p op, p ++ [op] <+: ops → OwnershipKept env.caller (after (init env s) p) op) ↔
      ∀ p op, p ++ [op] <+: ops → InitHarmless env.caller (after (init env s) p) op :=
  forall_step_iff (owned_init env s) (fun _ _ ht hk => ht.next hk)
    (fun _ op ht => ownershipKept_iff ht op) ops

/-- **Anybody becomes the owner** by calling `init`. -/
theorem not_ownershipFixed_second_init :
    ¬ ∀ p op, p ++ [op] <+: [Op.call ⟨addressOfBytes [2], 0⟩ .init] →
      OwnershipKept (addressOfBytes [1])
        (after (init ⟨addressOfBytes [1], 0⟩ (.new (addressOfBytes [9]))) p) op := by
  intro h
  have hk := h [] _ (List.prefix_refl _)
  have howner : OwnerKept (addressOfBytes [1]) ⟨addressOfBytes [2], 0⟩ _ .init := hk
  exact absurd howner.owner (by decide +kernel)

end Rustchain.Contracts.Bridge
