import Rustchain.Consensus.Node
import Rustchain.Consensus.Turns
import Rustchain.Vm.GasAccounting

/-! # The gas limit of a contract transaction

The meter of an execution stops at the limit, but it stops nothing else: a host function that is
refused gas returns an error code to the guest, or nothing, and a storage write goes on. Whether a
contract transaction succeeds, and so whether its changes are flushed, depends on how the guest ends
and not on the meter. So the limit is enforced on exactly those executions that either stay below it
or fail by themselves (`limitEnforced_iff`). -/

namespace Rustchain.Consensus

open Rustchain.Core Storage Vm Lib.Machine Lib.Maps Lib.Partial

namespace Exec

/-- The call into the engine that a transaction makes, and the contract whose context it starts
with. -/
def contractEntry {M : Type} (stx : SignedTransaction) (l : Loop M Database) :
    Option (Entry × Address) :=
  match stx.transaction.txType with
  | .contractDeploy => some (.deploy stx.transaction.data [], Address.zero)
  | .contractCall =>
    let target := stx.transaction.toAddr.getD Address.zero
    ((l.accounts.lookup target).bind (·.codeHash)).map fun codeHash =>
      (.call codeHash (extractFunctionName stx.transaction.data).1
        (extractFunctionName stx.transaction.data).2, target)
  | _ => none

theorem contractEntry_deploy {M : Type} {stx : SignedTransaction} {l : Loop M Database}
    (ht : stx.transaction.txType = .contractDeploy) :
    contractEntry stx l = some (.deploy stx.transaction.data [], Address.zero) := by
  simp only [contractEntry, ht]

theorem contractEntry_noCode {M : Type} {stx : SignedTransaction} {l : Loop M Database}
    (ht : stx.transaction.txType = .contractCall)
    (hcode : (l.accounts.lookup (stx.transaction.toAddr.getD Address.zero)).bind (·.codeHash) =
      none) : contractEntry stx l = none := by
  simp only [contractEntry, ht, hcode, Option.map_none]

theorem contractEntry_call {M : Type} {stx : SignedTransaction} {l : Loop M Database}
    {codeHash : Blake3Hash} (ht : stx.transaction.txType = .contractCall)
    (hcode : (l.accounts.lookup (stx.transaction.toAddr.getD Address.zero)).bind (·.codeHash) =
      some codeHash) :
    contractEntry stx l = some (.call codeHash (extractFunctionName stx.transaction.data).1
      (extractFunctionName stx.transaction.data).2,
      stx.transaction.toAddr.getD Address.zero) := by
  simp only [contractEntry, ht, hcode, Option.map_some]

section
variable (P : Primitives) (W : Wasmtime) (cfg : VmConfig)

/-- **The host calls** of the contract execution of a transaction, in turn. -/
def hostCalls (block : Block) (stx : SignedTransaction) (l : Loop W.Module Database) :
    List HostCall :=
  match contractEntry stx l with
  | some (entry, contract) => entry.calls P W cfg (vmStart W block stx contract l)
  | none => []

/-- The contract execution of a transaction completes. -/
def Completes (block : Block) (stx : SignedTransaction) (l : Loop W.Module Database) : Prop :=
  ∃ entry contract, contractEntry stx l = some (entry, contract) ∧
    entry.Completes P W cfg (vmStart W block stx contract l)

end

section
variable {P : Primitives} {W : Wasmtime} {cfg : VmConfig} {block : Block}
  {stx : SignedTransaction} {l : Loop W.Module Database} {s : VmState W.Module Database}

theorem completes_iff_entry {entry : Entry} {contract : Address}
    (hentry : contractEntry stx l = some (entry, contract)) :
    Completes P W cfg block stx l ↔
      entry.Completes P W cfg (vmStart W block stx contract l) := by
  constructor
  · rintro ⟨entry', contract', h, hcompletes⟩
    cases hentry.symm.trans h
    exact hcompletes
  · exact fun hcompletes => ⟨entry, contract, hentry, hcompletes⟩

theorem completes_deploy_iff {r : Except VmError DeployResult}
    (ht : stx.transaction.txType = .contractDeploy)
    (hvm : deployContract P W cfg stx.transaction.data []
      (vmStart W block stx Address.zero l) = some (r, s)) :
    Completes P W cfg block stx l ↔ ∃ d, r = .ok d := by
  rw [completes_iff_entry (contractEntry_deploy ht), Entry.deploy_ok_iff hvm]

theorem completes_call_iff {r : Except VmError CallResult} {codeHash : Blake3Hash}
    (ht : stx.transaction.txType = .contractCall)
    (hcode : (l.accounts.lookup (stx.transaction.toAddr.getD Address.zero)).bind (·.codeHash) =
      some codeHash)
    (hvm : callContract P W cfg codeHash (extractFunctionName stx.transaction.data).1
      (extractFunctionName stx.transaction.data).2
      (vmStart W block stx (stx.transaction.toAddr.getD Address.zero) l) = some (r, s)) :
    Completes P W cfg block stx l ↔ ∃ c, r = .ok c ∧ c.status = .success := by
  rw [completes_iff_entry (contractEntry_call ht hcode), Entry.call_success_iff hvm]

end

/-- **No change of the contract is applied**: the database and all accounts are as before, but for
the sender's, which has paid for its gas and may have got some of it back. -/
structure Unapplied {M : Type} (stx : SignedTransaction) (l l' : Loop M Database) : Prop where
  storage : l'.storage = l.storage
  others : ∀ a, a ≠ stx.sender → l'.accounts.lookup a = l.accounts.lookup a
  sender : accountOf l'.accounts stx.sender =
      (prepay stx.transaction (accountOf l.accounts stx.sender)).val ∨
    ∃ gasUsed, accountOf l'.accounts stx.sender =
      ((prepay stx.transaction (accountOf l.accounts stx.sender)).val.credit
        (mulU 64 (stx.transaction.gasLimit - gasUsed) stx.transaction.gasPrice).val).val

/-- **The gas limit is enforced** on a transaction: if its host calls cost more than the limit, it
does not succeed and no change is applied. -/
def LimitEnforced (P : Primitives) (W : Wasmtime) (cfg : VmConfig) (block : Block)
    (stx : SignedTransaction) (l l' : Loop W.Module Database) (status : TxStatus) : Prop :=
  stx.transaction.gasLimit < totalCharge (hostCalls P W cfg block stx l) →
    status ≠ .success ∧ Unapplied stx l l'

section
variable {P : Primitives} {W : Wasmtime} {cfg : VmConfig} {ord : HashOrders} {block : Block}
  {stx : SignedTransaction} {l l' : Loop W.Module Database}

theorem unapplied_finished {cache : HashMap Blake3Hash W.Module} {ov : Bool} {x : Account} {gas : ℕ}
    {r : TransactionReceipt}
    (hx : x = (prepay stx.transaction (accountOf l.accounts stx.sender)).val ∨
      ∃ gasUsed, x = ((prepay stx.transaction (accountOf l.accounts stx.sender)).val.credit
        (mulU 64 (stx.transaction.gasLimit - gasUsed) stx.transaction.gasPrice).val).val) :
    Unapplied stx l (finished { l with moduleCache := cache, overflow := ov } stx.sender x gas r)
    where
  storage := rfl
  others a ha := by
    rw [accounts_finished, Finmap.lookup_insert_of_ne _ ha]
    rfl
  sender := by
    rw [accounts_finished, accountOf_insert_self]
    exact hx

theorem deploy_status {x : Account} {o : Outcome} {l1 : Loop W.Module Database} {i : ℕ}
    (ht : stx.transaction.txType = .contractDeploy)
    (h : executeDeploy P W cfg ord block stx.transaction stx.sender
      (prepay stx.transaction (accountOf l.accounts stx.sender)).val (entered l stx) =
        some ((x, o), l1)) :
    (o.status = .success ↔ Completes P W cfg block stx l) ∧
      (o.status ≠ .success →
        Unapplied stx l (finished l1 stx.sender x o.gasUsed (receiptOf P block i stx o))) := by
  cases deployRun_of_eq_some P W cfg ord h with
  | refused hvm =>
    rw [completes_deploy_iff (l := l) ht hvm]
    exact ⟨iff_of_false nofun nofun, fun _ => unapplied_finished (.inl rfl)⟩
  | done hvm =>
    rw [completes_deploy_iff (l := l) ht hvm]
    exact ⟨iff_of_true rfl ⟨_, rfl⟩, fun hne => absurd rfl hne⟩

theorem call_status {x : Account} {o : Outcome} {l1 : Loop W.Module Database} {i : ℕ}
    (ht : stx.transaction.txType = .contractCall)
    (h : executeCall P W cfg ord block stx.transaction stx.sender
      (prepay stx.transaction (accountOf l.accounts stx.sender)).val (entered l stx) =
        some ((x, o), l1)) :
    (o.status = .success ↔ Completes P W cfg block stx l) ∧
      (o.status ≠ .success →
        Unapplied stx l (finished l1 stx.sender x o.gasUsed (receiptOf P block i stx o))) := by
  cases callRun_of_eq_some P W cfg ord h with
  | noCode hcode =>
    have hnot : ¬ Completes P W cfg block stx l := by
      rintro ⟨entry, contract, hentry, -⟩
      cases (contractEntry_noCode ht hcode).symm.trans hentry
    exact ⟨iff_of_false nofun hnot, fun _ => unapplied_finished (.inl rfl)⟩
  | refused hcode hvm =>
    rw [completes_call_iff (l := l) ht hcode hvm]
    exact ⟨iff_of_false nofun nofun, fun _ => unapplied_finished (.inl rfl)⟩
  | failed hcode hvm hst hrefund =>
    rw [completes_call_iff (l := l) ht hcode hvm]
    refine ⟨iff_of_false hst ?_, fun _ => ?_⟩
    · rintro ⟨c, hc, hs⟩
      cases hc
      exact hst hs
    · rw [refundGas_apply] at hrefund
      obtain ⟨rfl, rfl⟩ := some_pair_inj hrefund
      exact unapplied_finished (.inr ⟨_, rfl⟩)
  | done hcode hvm hst =>
    rw [completes_call_iff (l := l) ht hcode hvm]
    exact ⟨iff_of_true hst ⟨_, rfl, hst⟩, fun hne => absurd hst hne⟩

/-- **The gas limit is enforced on a transaction** exactly when its host calls stay below the limit
or its execution does not complete. -/
theorem limitEnforced_of_passes {i : ℕ} {o : Outcome} (hp : Passes l stx)
    (h : executeTx P W cfg ord block i stx l = some ((), l'))
    (ho : l'.receipts = l.receipts ++ [receiptOf P block i stx o]) :
    LimitEnforced P W cfg block stx l l' o.status ↔
      (stx.transaction.gasLimit < totalCharge (hostCalls P W cfg block stx l) →
        ¬ Completes P W cfg block stx l) := by
  obtain ⟨x, l1, hrun, rfl⟩ := executeTx_outcome hp h ho
  have hcontract : ((o.status = .success ↔ Completes P W cfg block stx l) ∧
      (o.status ≠ .success →
        Unapplied stx l (finished l1 stx.sender x o.gasUsed (receiptOf P block i stx o)))) →
      (LimitEnforced P W cfg block stx l
        (finished l1 stx.sender x o.gasUsed (receiptOf P block i stx o)) o.status ↔
        (stx.transaction.gasLimit < totalCharge (hostCalls P W cfg block stx l) →
          ¬ Completes P W cfg block stx l)) := by
    rintro ⟨hsuccess, hnot⟩
    refine forall_congr' fun _ => ?_
    rw [← hsuccess]
    exact ⟨And.left, fun hne => ⟨hne, hnot hne⟩⟩
  -- a transaction of another type makes no host call
  have hother : contractEntry stx l = none →
      (LimitEnforced P W cfg block stx l
        (finished l1 stx.sender x o.gasUsed (receiptOf P block i stx o)) o.status ↔
        (stx.transaction.gasLimit < totalCharge (hostCalls P W cfg block stx l) →
          ¬ Completes P W cfg block stx l)) := by
    intro hnone
    have hle : ¬ stx.transaction.gasLimit < totalCharge (hostCalls P W cfg block stx l) := by
      simp [hostCalls, hnone, totalCharge]
    exact iff_of_true (fun hlt => absurd hlt hle) fun hlt => absurd hlt hle
  unfold executeType at hrun
  cases ht : stx.transaction.txType with
  | contractDeploy =>
    rw [ht] at hrun
    exact hcontract (deploy_status ht hrun)
  | contractCall =>
    rw [ht] at hrun
    exact hcontract (call_status ht hrun)
  | transfer => exact hother (by simp only [contractEntry, ht])
  | stake => exact hother (by simp only [contractEntry, ht])
  | unstake => exact hother (by simp only [contractEntry, ht])

end

end Exec

namespace Small

def meteredTx : SignedTransaction :=
  .new .small ⟨1, 0, (KeyPair.small 2).address .small, none, 0, .contractDeploy, 4999, 1, [0], 0⟩
    (KeyPair.small 2)

def meteredBlock : Block := next genesisBlock [meteredTx]

def applyOnly (g : Guest (Int32 × Unit)) : Option (Applied (Wasmtime.only g).Module Database) :=
  applyBlock .small (.only g) .default (fun _ => .listed) ∅ start meteredBlock

theorem exists_ok {M : Type} {x : Option (Applied M Database)}
    {p : Applied M Database → List TransactionReceipt → Bool}
    (h : x.map (fun a => a.result.toOption.map (p a)) = some (some true)) :
    ∃ a rs, x = some a ∧ a.result = .ok rs ∧ p a rs = true := by
  obtain ⟨a, ha, hcheck⟩ := Option.map_eq_some_iff.mp h
  obtain ⟨rs, hrs, hp⟩ := Option.map_eq_some_iff.mp hcheck
  refine ⟨a, rs, ha, ?_, hp⟩
  cases hres : a.result with
  | error e => simp [hres, Except.toOption] at hrs
  | ok rs' =>
    rw [hres] at hrs
    rw [Option.some.inj hrs]

def beforeMetered : Loop Unit Database := start.toLoop ∅

theorem passes_metered : Exec.Passes beforeMetered meteredTx := by decide +kernel

theorem not_completes_trapping :
    ¬ Exec.Completes .small (.only trapping) .default meteredBlock meteredTx beforeMetered := by
  rintro ⟨entry, contract, hentry, hcompletes⟩
  obtain ⟨rfl, rfl⟩ : .deploy [0] [] = entry ∧ Address.zero = contract :=
    some_pair_inj hentry
  have hfails : (deployContract .small (.only trapping) .default [0] []
      (Exec.vmStart (.only trapping) meteredBlock meteredTx Address.zero beforeMetered)).map
        (fun r => r.1.toBool) = some false := by decide +kernel
  obtain ⟨⟨r, s'⟩, hvm, hr⟩ := Option.map_eq_some_iff.mp hfails
  obtain ⟨d, rfl⟩ := (Entry.deploy_ok_iff hvm).mpr hcompletes
  cases hr

end Small

end Rustchain.Consensus
