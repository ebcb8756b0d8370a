import Rustchain.Storage.Faults
import Rustchain.Vm.Simulation

/-! # Executions over a database with a fault

Until the fault, an execution over a `FaultyStore` goes as over the plain database with the same
content. -/

namespace Rustchain.Vm

open Rustchain.Core Storage Lib.Machine Lib.Maps Lib.Partial Lib.Simulation

/-- The state with the content of the store in place of the store. -/
def VmState.plain {M : Type} (s : VmState M FaultyStore) : VmState M Database :=
  ⟨s.context, s.storage.content, s.moduleCache, s.overflow⟩

section
variable (M : Type) (log₀ : List (StorageOp × Bool))

def Faulted (s : VmState M FaultyStore) : Prop := s.storage.Hit log₀

/-- There was no fault yet, and the plain state is the same. -/
structure Unfaulted (s : VmState M FaultyStore) (s' : VmState M Database) : Prop where
  clean : s.storage.Clean log₀
  plain : s' = s.plain

end

section
variable {M : Type} {log₀ : List (StorageOp × Bool)}

theorem sim_unfaulted {α : Type} {x : VmM M FaultyStore α} {y : VmM M Database α}
    {f : VmState M Database → α} {u : VmState M FaultyStore → VmState M FaultyStore}
    {w : VmState M Database → VmState M Database} (hx : ∀ s, x s = some (f s.plain, u s))
    (hy : ∀ s, y s = some (f s, w s)) (hu : ∀ s, (u s).storage = s.storage)
    (hw : ∀ s, w s.plain = (u s).plain) :
    Agree (Faulted M log₀) (Unfaulted M log₀) x y := by
  refine .of_apply hx hy (fun s h => ?_) fun s s' h => .inr ⟨by rw [h.plain], ?_, ?_⟩
  · rw [Faulted, hu]
    exact h
  · rw [hu]
    exact h.clean
  · rw [h.plain, hw]

theorem sim_readState {α : Type} {op : StorageOp} (hop : op.InLoop) (g : Database → α) :
    Agree (Faulted M log₀) (Unfaulted M log₀) (readState (read op g)) (readState (read op g)) := by
  refine .of_apply (fun _ => rfl) (fun _ => rfl) (fun s h => h.read hop g) fun s s' h => ?_
  refine (h.clean.read hop g).imp_right fun ⟨h1, h2, h3⟩ => ?_
  rw [h.plain, h1]
  refine ⟨rfl, h3, ?_⟩
  unfold VmState.plain
  rw [h2]
  rfl

theorem sim_arith {α : Type} (x : Flagged α) :
    Agree (Faulted M log₀) (Unfaulted M log₀) (arith x) (arith x) :=
  sim_unfaulted (f := fun _ => x.val) (fun _ => rfl) (fun _ => rfl) (fun _ => rfl) fun _ => rfl

theorem sim_getContext :
    Agree (Faulted M log₀) (Unfaulted M log₀) getContext getContext :=
  sim_unfaulted (f := fun s => s.context) (fun _ => rfl) (fun _ => rfl) (fun _ => rfl) fun _ => rfl

theorem sim_modifyContext (f : ExecutionContext → ExecutionContext) :
    Agree (Faulted M log₀) (Unfaulted M log₀) (modifyContext f) (modifyContext f) :=
  sim_unfaulted (f := fun _ => ()) (fun _ => rfl) (fun _ => rfl) (fun _ => rfl) fun _ => rfl

theorem sim_consumeGas (n : ℕ) :
    Agree (Faulted M log₀) (Unfaulted M log₀) (consumeGas n) (consumeGas n) :=
  sim_unfaulted (f := fun s => (s.context.gasMeter.consume n).1) (fun _ => rfl) (fun _ => rfl)
    (fun _ => rfl) fun _ => rfl

theorem sim_storageRead (a : Address) (k : Bytes) :
    Agree (Faulted M log₀) (Unfaulted M log₀) (storageRead a k) (storageRead a k) := by
  refine sim_getContext.bind fun c => ?_
  cases c.storageChanges.lookup (a, k) with
  | some v => exact .ret _
  | none => exact sim_readState (.getContractStorage a k) _

theorem sim_getBalance (a : Address) :
    Agree (Faulted M log₀) (Unfaulted M log₀) (getBalance a) (getBalance a) := by
  refine (sim_readState (.getAccount a) _).bind fun r => ?_
  cases r with
  | error e => exact .ret _
  | ok account =>
    exact sim_getContext.bind fun _ => (sim_arith _).bind fun _ => (sim_arith _).bind fun _ =>
      .ret _

theorem sim_transfer (source target : Address) (amount : ℕ) :
    Agree (Faulted M log₀) (Unfaulted M log₀)
      (transfer source target amount) (transfer source target amount) := by
  refine (sim_getBalance source).bind fun r => ?_
  cases r with
  | error e => exact .ret _
  | ok b =>
    dsimp only
    split_ifs
    · exact .ret _
    · exact (sim_arith _).bind fun _ => sim_getContext.bind fun _ => (sim_arith _).bind fun _ =>
        (sim_modifyContext _).bind fun _ => sim_getContext.bind fun _ => (sim_arith _).bind fun _ =>
        (sim_modifyContext _).bind fun _ => .ret _

theorem hostSim_faults :
    HostSim (Faulted M log₀) (Unfaulted M log₀) Eq (fun _ => True) where
  refl _ := rfl
  caller _ _ h := by rw [h]
  address _ _ h := by rw [h]
  gasMeter _ _ h := by rw [h]
  context := sim_getContext
  arith := sim_arith
  gas := sim_consumeGas
  storage := sim_storageRead
  journal _ _ _ := sim_modifyContext _
  emit _ := sim_modifyContext _
  balance := sim_getContext.bind fun _ => sim_getBalance _
  transfer _ _ := sim_getContext.bind fun _ => sim_transfer _ _ _
  block c mem hc _ := by
    rcases hc with rfl | rfl | rfl
    · exact sim_getContext.bind fun _ => .ret _
    · exact sim_getContext.bind fun _ => .ret _
    · exact sim_getContext.bind fun _ => .ret _

end

section
variable {P : Primitives} {W : Wasmtime} {cfg : VmConfig} {log₀ : List (StorageOp × Bool)}

theorem callSim_faults :
    CallSim W (Faulted W.Module log₀) (Unfaulted W.Module log₀) (Unfaulted W.Module log₀) Eq
      (fun _ => True) where
  toHostSim := hostSim_faults
  instantiate _ _ := Guest.only_of_forall (fun _ => trivial) _
  guestCall _ _ _ := Guest.only_of_forall (fun _ => trivial) _
  done _ _ h := h
  blank := sim_modifyContext _
  gasSince _ := sim_getContext.bind fun _ => sim_arith _
  takeLogs := sim_getContext.bind fun _ => (sim_modifyContext _).bind fun _ => .ret _

theorem sim_compileModule (code : Bytes) :
    Agree (Faulted W.Module log₀) (Unfaulted W.Module log₀)
      (compileModule P W cfg code) (compileModule P W cfg code) := by
  constructor
  · intro s r t ht hE
    have hstorage : t.storage = s.storage := by
      unfold compileModule at ht
      split at ht
      · obtain ⟨-, rfl⟩ := some_pair_inj ht
        rfl
      · split at ht
        · obtain ⟨-, rfl⟩ := some_pair_inj ht
          rfl
        · obtain ⟨-, rfl⟩ := some_pair_inj ht
          rfl
    rw [Faulted, hstorage]
    exact hE
  · rintro s s' r t ⟨hclean, rfl⟩ ht
    unfold compileModule at ht ⊢
    unfold VmState.plain
    cases hl : s.moduleCache.lookup (P.blake3 code) with
    | some m =>
      simp only [hl] at ht ⊢
      obtain ⟨rfl, rfl⟩ := some_pair_inj ht
      exact .inr ⟨_, _, rfl, rfl, hclean, rfl⟩
    | none =>
      cases hm : compileFresh W cfg code with
      | error e =>
        simp only [hl, hm] at ht ⊢
        obtain ⟨rfl, rfl⟩ := some_pair_inj ht
        exact .inr ⟨_, _, rfl, rfl, hclean, rfl⟩
      | ok m =>
        simp only [hl, hm] at ht ⊢
        obtain ⟨rfl, rfl⟩ := some_pair_inj ht
        exact .inr ⟨_, _, rfl, rfl, hclean, rfl⟩

theorem sim_loadModule (codeHash : Blake3Hash) :
    Agree (Faulted W.Module log₀) (Unfaulted W.Module log₀)
      (loadModule P W cfg codeHash) (loadModule P W cfg codeHash) := by
  have hcached : Agree (Faulted W.Module log₀) (Unfaulted W.Module log₀)
      (cachedModule codeHash) (cachedModule codeHash) :=
    sim_unfaulted (f := fun s => s.moduleCache.lookup codeHash) (fun _ => rfl) (fun _ => rfl)
      (fun _ => rfl) fun _ => rfl
  refine hcached.bind fun r => ?_
  cases r with
  | some m => exact .ret _
  | none =>
    refine (sim_readState (.getContractCode codeHash) _).bind fun r => ?_
    rcases r with e | (_ | code)
    · exact .ret _
    · exact .ret _
    · refine (sim_compileModule code).bind fun r => ?_
      cases r with
      | error e => exact .ret _
      | ok p => exact .ret _

theorem sim_callContract (codeHash : Blake3Hash) (name : String) (args : Bytes) :
    Agree (Faulted W.Module log₀) (Unfaulted W.Module log₀)
      (callContract P W cfg codeHash name args) (callContract P W cfg codeHash name args) :=
  callSim_faults.callContract (sim_loadModule codeHash) name args

theorem sim_deployContract (code args : Bytes) :
    Agree (Faulted W.Module log₀) (Unfaulted W.Module log₀)
      (deployContract P W cfg code args) (deployContract P W cfg code args) :=
  callSim_faults.deployContract (sim_compileModule code)
    (sim_getContext.mono (fun _ _ h => by rw [h]; exact ⟨rfl, rfl, rfl⟩) fun _ _ h => h)
    (fun _ => sim_modifyContext _) (fun _ _ h => h) args

end

end Rustchain.Vm
