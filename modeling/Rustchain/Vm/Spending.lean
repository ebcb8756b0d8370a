import Rustchain.Vm.StorageJournal

/-! # What a contract can spend

A transfer takes from the contract that runs and from nobody else, and not more than the database
has for it together with its delta. So no other delta is negative after an execution without
overflow, and the delta of the contract takes at most what the contract has in the database. -/

namespace Rustchain.Vm

open Rustchain.Core Storage Lib.Machine Lib.Maps Lib.Partial

/-- The deltas that an execution of `contract` on a database can leave. -/
structure Spends (d : Database) (contract : Address) (ctx : ExecutionContext) : Prop where
  others : ∀ a, a ≠ contract → 0 ≤ ctx.delta a
  covered : 0 ≤ (storedBalance d contract : ℤ) + ctx.delta contract

section
variable {d : Database} {contract target : Address} {ctx : ExecutionContext} {a : ℤ}

theorem spends_of_zero (h : ∀ a, ctx.delta a = 0) : Spends d contract ctx :=
  ⟨fun a _ => (h a).ge, by rw [h]; omega⟩

theorem Spends.of_deltas {ctx' : ExecutionContext} (h : Spends d contract ctx)
    (hc : ctx'.balanceChanges = ctx.balanceChanges) : Spends d contract ctx' := by
  obtain ⟨ho, hb⟩ := h
  unfold ExecutionContext.delta at ho hb
  rw [← hc] at ho hb
  exact ⟨ho, hb⟩

theorem delta_moved (h : (ctx.moved contract target a).ovf = false) (b : Address) :
    (ctx.moved contract target a).val.delta b = ctx.delta b - (if b = contract then a else 0) +
      if b = target then a else 0 := by
  unfold ExecutionContext.moved at h ⊢
  simp only [ovf_bind, val_bind, Bool.or_eq_false_iff] at h ⊢
  obtain ⟨hsub, hadd, -⟩ := h
  rw [show (subI 128 (ctx.delta contract) a).val = _ from fitI_val hsub] at hadd ⊢
  rw [show (addI 128 ((ctx.withDelta contract _).delta target) a).val = _ from fitI_val hadd]
  show ((ctx.withDelta contract _).withDelta target _).delta b = _
  simp only [delta_withDelta]
  split_ifs with h1 h2 h3 h3 <;> subst_vars <;> first | omega | contradiction

/-- A payment that the contract can make keeps the deltas among those. -/
theorem Spends.moved (h : Spends d contract ctx) (h0 : 0 ≤ a)
    (hle : a ≤ storedBalance d contract + ctx.delta contract)
    (hov : (ctx.moved contract target a).ovf = false) :
    Spends d contract (ctx.moved contract target a).val := by
  refine ⟨fun b hb => ?_, ?_⟩
  · have := h.others b hb
    rw [delta_moved hov, if_neg hb]
    split_ifs <;> omega
  · rw [delta_moved hov, if_pos rfl]
    split_ifs <;> omega

end

section
variable {M : Type}

/-- The execution of one contract goes on: the database and the contract are as before, an overflow
is not forgotten, and without one the deltas stay among those it can leave. -/
structure StaysSpending (s s' : VmState M Database) : Prop where
  storage : s'.storage = s.storage
  contract : s'.context.contractAddress = s.context.contractAddress
  overflow : s'.overflow = false → s.overflow = false
  spends : s'.overflow = false → Spends s.storage s.context.contractAddress s.context →
    Spends s.storage s.context.contractAddress s'.context

theorem staysSpending_of_deltas {s s' : VmState M Database} (hs : s'.storage = s.storage)
    (hc : s'.context.contractAddress = s.context.contractAddress)
    (hd : s'.context.balanceChanges = s.context.balanceChanges)
    (ho : s'.overflow = false → s.overflow = false) : StaysSpending s s' :=
  ⟨hs, hc, ho, fun _ h => h.of_deltas hd⟩

theorem StaysSpending.trans {s t u : VmState M Database} (h1 : StaysSpending s t)
    (h2 : StaysSpending t u) : StaysSpending s u where
  storage := h2.storage.trans h1.storage
  contract := h2.contract.trans h1.contract
  overflow h := h1.overflow (h2.overflow h)
  spends h hs := by
    have h3 := h2.spends h
    rw [h1.storage, h1.contract] at h3
    exact h3 (h1.spends (h2.overflow h) hs)

theorem staysSpending_transfer (target : Address) (amount : ℕ) :
    Keeps StaysSpending (getContext >>= fun ctx => transfer ctx.contractAddress target amount :
      VmM M Database (Except VmError Unit)) := by
  intro s r s' h
  rw [bind_of_eq (getContext_run _)] at h
  obtain hlt | hle := Nat.lt_or_ge
    (seenBalance (storedBalance s.storage s.context.contractAddress)
      (s.context.delta s.context.contractAddress)).val amount
  · rw [transfer_of_lt (getBalance_run _ s) hlt] at h
    obtain ⟨-, rfl⟩ := some_pair_inj h
    exact staysSpending_of_deltas rfl rfl rfl fun h => (Bool.or_eq_false_iff.mp h).1
  · rw [transfer_of_le (getBalance_run _ s) hle] at h
    obtain ⟨-, rfl⟩ := some_pair_inj h
    refine ⟨rfl, rfl, fun h => ?_, fun h hs => ?_⟩
    · exact (Bool.or_eq_false_iff.mp (Bool.or_eq_false_iff.mp h).1).1
    · obtain ⟨h, hmoved⟩ := Bool.or_eq_false_iff.mp h
      obtain ⟨hamount, hmoved⟩ := Bool.or_eq_false_iff.mp hmoved
      obtain ⟨-, hseen⟩ := Bool.or_eq_false_iff.mp h
      rw [seenBalance_ovf] at hseen
      obtain ⟨hbase, hsum⟩ := Bool.or_eq_false_iff.mp hseen
      rw [seenBalance_val, show (toSigned 128 _).val = _ from fitI_val hbase] at hle
      rw [show (toSigned 128 _).val = _ from fitI_val hbase] at hsum
      rw [show (addI 128 _ _).val = _ from fitI_val hsum] at hle
      rw [show (toSigned 128 amount).val = (amount : ℤ) from fitI_val hamount] at hmoved ⊢
      have hcovered := hs.covered
      exact hs.moved (by omega) (by omega) hmoved

theorem hostRelation_staysSpending : HostRelation (StaysSpending (M := M)) where
  refl _ := staysSpending_of_deltas rfl rfl rfl id
  trans _ _ _ := StaysSpending.trans
  arith _ := keeps_of_apply (fun _ => rfl) fun _ =>
    staysSpending_of_deltas rfl rfl rfl fun h => (Bool.or_eq_false_iff.mp h).1
  gas _ := keeps_of_apply (fun _ => rfl) fun _ => staysSpending_of_deltas rfl rfl rfl id
  readAccount _ := keeps_of_apply (fun _ => rfl) fun _ => staysSpending_of_deltas rfl rfl rfl id
  readStorage _ _ := keeps_of_apply (fun _ => rfl) fun _ => staysSpending_of_deltas rfl rfl rfl id
  journal _ _ _ := keeps_of_apply (fun _ => rfl) fun _ => staysSpending_of_deltas rfl rfl rfl id
  emit _ := keeps_of_apply (fun _ => rfl) fun _ => staysSpending_of_deltas rfl rfl rfl id
  transfer := staysSpending_transfer

end

/-! ### The engine -/

section
variable {P : Primitives} {W : Wasmtime} {cfg : VmConfig} {s s' : VmState W.Module Database}

/-- An execution that starts without deltas leaves such deltas, or the blank context. -/
theorem spends_executeFunction {module : W.Module} {name : String} {args : Bytes}
    {r : Except VmError Bytes} (h : executeFunction W cfg module name args s = some (r, s'))
    (h0 : ∀ a, s.context.delta a = 0) (hov : s'.overflow = false) :
    Spends s.storage s.context.contractAddress s'.context := by
  rcases executeFunction_cases h with ⟨data, -, hinvoke⟩ | ⟨e, s2, -, -, hblank⟩
  · exact (hostRelation_staysSpending.invoke _ _ _ _ _ _ hinvoke).spends hov (spends_of_zero h0)
  · rw [hblank]
    exact spends_of_zero fun _ => rfl

theorem spends_finish {α : Type} {c : ExecutionContext} {f : ℕ → List EventLog → α} {r : α}
    {d : Database} {contract : Address}
    (h : (do
      let gasUsed ← gasSince c.gasMeter.consumed
      let logs ← takeLogs
      return f gasUsed logs : VmM W.Module Database α) s = some (r, s'))
    (hov : s'.overflow = false) (hs : s.overflow = false → Spends d contract s.context) :
    Spends d contract s'.context := by
  obtain ⟨g, s1, hgas, h⟩ := bind_eq_some.mp h
  obtain ⟨-, rfl⟩ := some_pair_inj hgas
  obtain ⟨logs, s2, hlogs, h⟩ := bind_eq_some.mp h
  obtain ⟨-, rfl⟩ := some_pair_inj hlogs
  obtain ⟨-, rfl⟩ := pure_eq_some h
  exact (hs (Bool.or_eq_false_iff.mp hov).1).of_deltas rfl

/-- **A deployment** spends what the database has at the address of the new contract. -/
theorem spends_deployContract {code args : Bytes} {r : DeployResult}
    (h0 : ∀ a, s.context.delta a = 0)
    (h : deployContract P W cfg code args s = some (.ok r, s')) (hov : s'.overflow = false) :
    Spends s.storage r.contractAddress s'.context := by
  have hr := (deployContract_result h).1
  unfold deployContract at h
  obtain ⟨res, s1, hcompile, h⟩ := bind_eq_some.mp h
  obtain ⟨cache, rfl⟩ := compileModule_spec hcompile
  cases res with
  | error e => cases h
  | ok p =>
    obtain ⟨ctx, s2, hctx, h⟩ := bind_eq_some.mp h
    obtain ⟨rfl, rfl⟩ := some_pair_inj hctx
    obtain ⟨_, t, ht, h⟩ := bind_eq_some.mp h
    obtain ⟨-, rfl⟩ := some_pair_inj ht
    obtain ⟨x, s3, hexec, h⟩ := bind_eq_some.mp h
    have hspends := spends_executeFunction hexec h0
    rw [hr]
    split at h
    · exact spends_finish h hov hspends
    · exact spends_finish h hov hspends
    · cases h

/-- **A call that succeeds** spends what the database has for the contract that is called. -/
theorem spends_callContract {codeHash : Blake3Hash} {name : String} {args : Bytes} {r : CallResult}
    (h0 : ∀ a, s.context.delta a = 0)
    (h : callContract P W cfg codeHash name args s = some (.ok r, s')) (hst : r.status = .success)
    (hov : s'.overflow = false) : Spends s.storage s.context.contractAddress s'.context := by
  unfold callContract at h
  obtain ⟨res, s1, hload, h⟩ := bind_eq_some.mp h
  obtain ⟨cache, rfl⟩ := loadModule_spec hload
  cases res with
  | error e => cases h
  | ok module =>
    obtain ⟨ctx, s2, hctx, h⟩ := bind_eq_some.mp h
    obtain ⟨rfl, rfl⟩ := some_pair_inj hctx
    obtain ⟨x, s3, hexec, h⟩ := bind_eq_some.mp h
    have hspends := spends_executeFunction hexec h0
    split at h
    · exact spends_finish h hov hspends
    · obtain ⟨hr, -⟩ := pure_eq_some h
      cases hr
      cases hst
    · obtain ⟨g, s4, -, h⟩ := bind_eq_some.mp h
      obtain ⟨hr, -⟩ := pure_eq_some h
      cases hr
      cases hst

end

end Rustchain.Vm
