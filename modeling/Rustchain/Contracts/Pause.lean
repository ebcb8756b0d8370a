import Rustchain.Contracts.Settlement

/-! # The paused bridge

While the bridge is paused, a call by anyone but the owner leaves storage and balance alone, with
two exceptions that the source does not guard: a claim or a refund that settles an HTLC, and `init`,
which ends the pause. Without these the pause halts the contract (`pauseHalts_iff`). -/

namespace Rustchain.Contracts.Bridge

open Rustchain.Core Lib.Runs
open Vm (addressOfBytes)
open ContractState

/-- Storage and balance are as before. -/
structure Untouched (s s' : ContractState) : Prop where
  storage : s'.storage = s.storage
  balance : s'.balance = s.balance

theorem Untouched.rfl {s : ContractState} : Untouched s s := ⟨Eq.refl _, Eq.refl _⟩

theorem Untouched.trans {s t u : ContractState} (h : Untouched s t) (h' : Untouched t u) :
    Untouched s u := ⟨h'.storage.trans h.storage, h'.balance.trans h.balance⟩

theorem Untouched.symm {s t : ContractState} (h : Untouched s t) : Untouched t s :=
  ⟨h.storage.symm, h.balance.symm⟩

theorem Untouched.storageRead {s s' : ContractState} (h : Untouched s s') (key : Bytes) :
    s'.storageRead key = s.storageRead key := by
  unfold ContractState.storageRead
  rw [h.storage]

theorem untouched_of_quiet {s s' : ContractState} (h : Quiet s s') : Untouched s s' :=
  ⟨h.storage, h.balance⟩

/-- The state after some calls, each with its caller and time. -/
def afterCalls (s : ContractState) (calls : List (CallEnv × Entry)) : ContractState :=
  calls.foldl (fun s c => next s (.call c.1 c.2)) s

/-- A call that the pause does not stop: `init`, or one that settles an HTLC. -/
def Unguarded (env : CallEnv) (s : ContractState) (e : Entry) : Prop :=
  e = .init ∨ e.settles = true ∧ Succeeds env s e

section
variable {env : CallEnv} {s s' : ContractState} {e : Entry}

theorem not_untouched_settleHtlc {k : Settlement} (hk : k.status ≠ 0) {lock data : Bytes}
    {htlc : HtlcData} (hdata : s.storageRead (htlcKey (hexEncode32 lock)) = some data)
    (hdec : decodeHtlc data = some htlc) (hactive : htlc.status = 0) :
    ¬ Untouched s (settleHtlc k s (htlcKey (hexEncode32 lock)) htlc) := by
  intro h
  have hbecomes := becomes_settleHtlc hk (record_eq_some.mpr ⟨data, hdata, hdec⟩) hactive
  exact not_becomes_of_record_eq (record_congr fun _ => h.storageRead _) hbecomes

theorem untouched_next_iff (hpaused : s.readBool pausedKey = true)
    (hcaller : env.caller ≠ s.readAddress ownerKey) :
    Untouched s (next s (.call env e)) ↔ ¬ Unguarded env s e := by
  unfold Unguarded
  rcases call_cases env s e with ⟨t, hcall, hnext⟩ | ⟨code, s', hcall, hnext, heff⟩
  · rw [hnext]
    refine iff_of_true .rfl ?_
    rintro (rfl | ⟨_, hs⟩)
    · cases hcall
    · exact not_succeeds_of_error hcall hs
  · rw [hnext, succeeds_iff hcall]
    have hrunning : s.readBool pausedKey = false → False := fun h => by
      rw [h] at hpaused
      cases hpaused
    cases heff with
    | refused hq =>
      refine iff_of_true (untouched_of_quiet hq) ?_
      rintro (rfl | ⟨_, hzero⟩)
      · exact absurd (Prod.mk.inj (Except.ok.inj hcall)).1 (by decide)
      · exact absurd hzero (by decide)
    | init =>
      refine iff_of_false (fun h => ?_) (fun h => h (.inl rfl))
      exact hrunning ((reads_congr (h.storageRead pausedKey)).2.2.1 ▸ (reads_init env s).2.1)
    | claimed hdata hdec hactive _ _ =>
      exact iff_of_false (not_untouched_settleHtlc (by decide) hdata hdec hactive)
        fun h => h (.inr ⟨rfl, rfl⟩)
    | refunded _ hdata hdec hactive _ _ =>
      exact iff_of_false (not_untouched_settleHtlc (by decide) hdata hdec hactive)
        fun h => h (.inr ⟨rfl, rfl⟩)
    | created hp _ _ _ _ => exact (hrunning hp).elim
    | locked hp _ => exact (hrunning hp).elim
    | minted _ hp _ => exact (hrunning hp).elim
    | burned hp _ _ => exact (hrunning hp).elim
    | validatorAdded ho => exact absurd ho hcaller
    | validatorRemoved ho => exact absurd ho hcaller
    | paused ho => exact absurd ho hcaller
    | unpaused ho => exact absurd ho hcaller
    | htlcCount => exact iff_of_true .rfl (by simp [Entry.settles])
    | validatorCount => exact iff_of_true .rfl (by simp [Entry.settles])

theorem unguarded_congr (h : Untouched s s') : Unguarded env s' e ↔ Unguarded env s e :=
  or_congr_right (and_congr_right fun he => succeeds_congr_of_settles he h.storage)

end

/-- **The pause halts the contract** for all but its owner in exactly the sequences of calls in
which no call is `init`, and none settles an HTLC of the paused contract. -/
theorem pauseHalts_iff (s : ContractState) (hpaused : s.readBool pausedKey = true)
    (calls : List (CallEnv × Entry))
    (hcallers : ∀ c ∈ calls, c.1.caller ≠ s.readAddress ownerKey) :
    (∀ p, p <+: calls → Untouched s (afterCalls s p)) ↔ ∀ c ∈ calls, ¬ Unguarded c.1 s c.2 := by
  induction calls using List.reverseRecOn with
  | nil => simpa [afterCalls] using Untouched.rfl
  | append_singleton calls c ih =>
    simp only [List.forall_mem_append, List.forall_mem_singleton] at hcallers ⊢
    rw [forall_prefix_concat, ih hcallers.1]
    refine and_congr_right fun hguarded => ?_
    have hbefore := (ih hcallers.1).mpr hguarded calls (List.prefix_refl calls)
    have hreads := reads_congr (hbefore.storageRead pausedKey)
    have howner := (reads_congr (hbefore.storageRead ownerKey)).2.2.2
    have hstep : afterCalls s (calls ++ [c]) = next (afterCalls s calls) (.call c.1 c.2) :=
      List.foldl_append ..
    rw [hstep, ← not_congr (unguarded_congr hbefore),
      ← untouched_next_iff (hreads.2.2.1.trans hpaused) (howner.symm ▸ hcallers.2)]
    exact ⟨fun h => hbefore.symm.trans h, fun h => hbefore.trans h⟩

def pausedBridge : ContractState :=
  let owner : CallEnv := ⟨addressOfBytes [1], 0⟩
  after (.new (addressOfBytes [9])) [.call owner .init, .deposit 100,
    .call ⟨addressOfBytes [2], 0⟩ (.createHtlc (List.replicate 60 0)), .call owner .pause]

def lateCreation : List (CallEnv × Entry) :=
  [(⟨addressOfBytes [2], 0⟩, .createHtlc (List.replicate 60 1))]

/-- The pause stops it. -/
theorem pauseHalts_lateCreation :
    pausedBridge.readBool pausedKey = true ∧
      (∀ c ∈ lateCreation, c.1.caller ≠ pausedBridge.readAddress ownerKey) ∧
      ∀ p, p <+: lateCreation → Untouched pausedBridge (afterCalls pausedBridge p) := by
  have hpaused : pausedBridge.readBool pausedKey = true := by decide +kernel
  have howner : ∀ c ∈ lateCreation, c.1.caller ≠ pausedBridge.readAddress ownerKey := by
    decide +kernel
  refine ⟨hpaused, howner, (pauseHalts_iff pausedBridge hpaused _ howner).mpr ?_⟩
  simp [lateCreation, Unguarded, Entry.settles]

/-- **Paused, and yet** the refund of an HTLC pays its amount out, and a call of `init` by anyone
ends the pause. -/
theorem not_pauseHalts_refund_and_init :
    pausedBridge.readBool pausedKey = true ∧
      addressOfBytes [2] ≠ pausedBridge.readAddress ownerKey ∧
      ¬ Untouched pausedBridge (afterCalls pausedBridge
        [(⟨addressOfBytes [2], 0⟩, .refundHtlc (List.replicate 32 0))]) ∧
      ¬ Untouched pausedBridge (afterCalls pausedBridge [(⟨addressOfBytes [2], 0⟩, .init)]) := by
  refine ⟨by decide +kernel, by decide +kernel, fun h => ?_, fun h => ?_⟩
  · exact absurd h.balance (by decide +kernel)
  · exact absurd (reads_congr (h.storageRead pausedKey)).2.2.1 (by decide +kernel)

end Rustchain.Contracts.Bridge
