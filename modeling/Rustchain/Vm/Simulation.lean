import Rustchain.Lib.Simulation
import Rustchain.Vm.Engine

/-! # Two executions of one contract

When do two executions agree that start in different states, over different kinds of storage even?
`HostSim` lists what is asked of the single accesses; from it every guest is simulated, and with the
accesses of the engine added (`CallSim`) a whole call or deployment. A relation may
allow only some of the host calls, such as those that do not ask for the block. -/

namespace Rustchain.Vm

open Rustchain.Core Storage Lib.Machine Lib.Maps Lib.Partial Lib.Simulation

/-- The calls that a guest makes, on whatever answers it gets, are among the allowed ones. -/
def Guest.Only (A : HostCall → Prop) {α : Type} : Guest α → Prop
  | .done _ => True
  | .trap _ => True
  | .call c _ k => A c ∧ ∀ v mem, (k v mem).Only A

theorem Guest.only_of_forall {A : HostCall → Prop} (hA : ∀ c, A c) {α : Type} :
    ∀ g : Guest α, g.Only A
  | .done _ => trivial
  | .trap _ => trivial
  | .call c _ k => ⟨hA c, fun v mem => only_of_forall hA (k v mem)⟩

def HostCall.AsksBlock (c : HostCall) : Prop :=
  c = .blockNumber ∨ c = .blockTimestamp ∨ c = .chainId

theorem sim_allocBuffer {M σ σ' : Type} {E : VmState M σ → Prop}
    {R : VmState M σ → VmState M σ' → Prop} (len : Int32) :
    Agree E R (allocBuffer len) (allocBuffer len) := by
  by_cases hl : 0 ≤ len.toInt
  · exact .of_apply (fun s => if_pos hl) (fun s => if_pos hl) (fun _ hE => hE)
      fun _ _ hR => .inr ⟨rfl, hR⟩
  · constructor
    · intro s a t ht
      rw [allocBuffer, if_neg hl] at ht
      cases ht
    · intro s s' a t _ ht
      rw [allocBuffer, if_neg hl] at ht
      cases ht

theorem sim_hostAbort {M σ σ' : Type} {E : VmState M σ → Prop}
    {R : VmState M σ → VmState M σ' → Prop} (p l : Int32) (mem : Option Memory) :
    Agree E R (hostAbort p l mem) (hostAbort p l mem) := by
  unfold hostAbort
  split_ifs
  · cases mem with
    | none => exact .ret _
    | some m => exact (sim_allocBuffer l).bind fun _ => .ret _
  · exact .ret _

theorem sim_exceptBind {M σ σ' : Type} {E : VmState M σ → Prop}
    {R : VmState M σ → VmState M σ' → Prop} {α β : Type}
    {x : ExceptT VmError (VmM M σ) α} {y : ExceptT VmError (VmM M σ') α}
    {f : α → ExceptT VmError (VmM M σ) β} {g : α → ExceptT VmError (VmM M σ') β}
    (hx : Agree E R x.run y.run) (hf : ∀ a, Agree E R (f a).run (g a).run) :
    Agree E R (x >>= f).run (y >>= g).run := by
  rw [ExceptT.run_bind, ExceptT.run_bind]
  refine hx.bind fun r => ?_
  cases r with
  | ok a => exact hf a
  | error e => exact .ret _

section
variable {M σ σ' : Type} [Backend σ] [Backend σ']

/-- What is asked of the accesses of host functions: contexts stay related by `C`, states by `R`,
and the host calls in `A` get the same answers. -/
structure HostSim (E : VmState M σ → Prop) (R : VmState M σ → VmState M σ' → Prop)
    (C : ExecutionContext → ExecutionContext → Prop) (A : HostCall → Prop) : Prop where
  refl : ∀ c, C c c
  caller : ∀ c c', C c c' → c.caller = c'.caller
  address : ∀ c c', C c c' → c.contractAddress = c'.contractAddress
  gasMeter : ∀ c c', C c c' → c.gasMeter = c'.gasMeter
  context : Sim E R R C getContext getContext
  arith : ∀ {α : Type} (x : Flagged α), Sim E R R Eq (arith x) (arith x)
  gas : ∀ n, Sim E R R Eq (consumeGas n) (consumeGas n)
  storage : ∀ a k, Sim E R R Eq (storageRead a k) (storageRead a k)
  journal : ∀ a k v, Sim E R R Eq (storageWrite a k v) (storageWrite a k v)
  emit : ∀ data, Sim E R R Eq
    (modifyContext fun c => { c with logs := c.logs ++ [⟨c.contractAddress, [], data⟩] })
    (modifyContext fun c => { c with logs := c.logs ++ [⟨c.contractAddress, [], data⟩] })
  balance : Sim E R R Eq (getContext >>= fun c => getBalance c.contractAddress)
    (getContext >>= fun c => getBalance c.contractAddress)
  transfer : ∀ target amount, Sim E R R Eq
    (getContext >>= fun c => transfer c.contractAddress target amount)
    (getContext >>= fun c => transfer c.contractAddress target amount)
  block : ∀ c mem, c.AsksBlock → A c → Sim E R R Eq (runHostCall c mem) (runHostCall c mem)

namespace HostSim

variable {E : VmState M σ → Prop} {R : VmState M σ → VmState M σ' → Prop}
variable {C : ExecutionContext → ExecutionContext → Prop} {A : HostCall → Prop}
variable (h : HostSim E R C A)

include h

theorem withContext {α : Type} {R' : VmState M σ → VmState M σ' → Prop} {V : α → α → Prop}
    {f : ExecutionContext → VmM M σ α} {g : ExecutionContext → VmM M σ' α}
    (hf : ∀ c c', C c c' → Sim E R R' V (f c) (g c')) :
    Sim E R R' V (getContext >>= f) (getContext >>= g) :=
  h.context.bind_refl h.refl hf

/-! ### Host functions -/

theorem hostStorageRead (kp kl vp : Int32) (mem : Option Memory) :
    Agree E R (hostStorageRead kp kl vp mem) (hostStorageRead kp kl vp mem) := by
  refine (h.gas _).bind fun r => ?_
  cases r with
  | error e => exact .ret _
  | ok _ =>
    cases mem with
    | none => exact .ret _
    | some m =>
      refine (sim_allocBuffer kl).bind fun len => ?_
      cases m.read (asUsize kp) len with
      | none => exact .ret _
      | some key =>
        refine h.withContext fun c c' hc => ?_
        rw [h.address c c' hc]
        refine (h.storage _ _).bind fun r => ?_
        split
        · rename_i value
          cases m.write (asUsize vp) value with
          | none => exact .ret _
          | some m' => exact .ret _
        · exact .ret _

theorem hostStorageWrite (kp kl vp vl : Int32) (mem : Option Memory) :
    Agree E R (hostStorageWrite kp kl vp vl mem) (hostStorageWrite kp kl vp vl mem) := by
  refine (h.gas _).bind fun _ => ?_
  cases mem with
  | none => exact .ret _
  | some m =>
    refine (sim_allocBuffer kl).bind fun klen => (sim_allocBuffer vl).bind fun vlen => ?_
    split
    · refine h.withContext fun c c' hc => ?_
      rw [h.address c c' hc]
      exact (h.journal _ _ _).bind fun _ => .ret _
    · exact .ret _

theorem hostSelfBalance (mem : Option Memory) :
    Agree E R (hostSelfBalance mem) (hostSelfBalance mem) := by
  unfold Vm.hostSelfBalance
  rw [← bind_assoc, ← bind_assoc]
  refine h.balance.bind fun r => ?_
  cases r with
  | ok b => exact .ret _
  | error e => exact .ret _

theorem hostTransfer (p : Int32) (amount : Int64) (mem : Option Memory) :
    Agree E R (hostTransfer p amount mem) (hostTransfer p amount mem) := by
  refine (h.gas _).bind fun r => ?_
  cases r with
  | error e => exact .ret _
  | ok _ =>
    cases mem with
    | none => exact .ret _
    | some m =>
      dsimp only
      cases m.read (asUsize p) 20 with
      | none => exact .ret _
      | some toBytes =>
        dsimp only
        rw [← bind_assoc, ← bind_assoc]
        refine (h.transfer _ _).bind fun r => ?_
        cases r with
        | ok _ => exact .ret _
        | error e => exact .ret _

theorem hostEmitEvent (tc dp dl : Int32) (mem : Option Memory) :
    Agree E R (hostEmitEvent tc dp dl mem) (hostEmitEvent tc dp dl mem) := by
  refine (h.arith _).bind fun _ => (h.arith _).bind fun _ => (h.arith _).bind fun _ =>
    (h.arith _).bind fun _ => (h.gas _).bind fun r => ?_
  cases r with
  | error e => exact .ret _
  | ok _ =>
    cases mem with
    | none => exact .ret _
    | some m =>
      refine (sim_allocBuffer dl).bind fun len => ?_
      cases m.read (asUsize dp) len with
      | none => exact .ret _
      | some data => exact (h.emit _).bind fun _ => .ret _

theorem runHostCall (c : HostCall) (mem : Option Memory) (hA : A c) :
    Agree E R (runHostCall c mem) (runHostCall c mem) := by
  cases c with
  | storageRead kp kl vp => exact (h.hostStorageRead kp kl vp mem).map _
  | storageWrite kp kl vp vl => exact (h.hostStorageWrite kp kl vp vl mem).map _
  | caller p =>
    refine h.withContext fun c c' hc => ?_
    rw [h.caller c c' hc]
    exact .ret _
  | selfAddress p =>
    refine h.withContext fun c c' hc => ?_
    rw [h.address c c' hc]
    exact .ret _
  | blockNumber => exact h.block _ mem (.inl rfl) hA
  | blockTimestamp => exact h.block _ mem (.inr (.inl rfl)) hA
  | chainId => exact h.block _ mem (.inr (.inr rfl)) hA
  | selfBalance => exact (h.hostSelfBalance mem).map _
  | transfer p a => exact (h.hostTransfer p a mem).map _
  | emitEvent tp tc dp dl => exact (h.hostEmitEvent tc dp dl mem).map _
  | abort p l => exact (sim_hostAbort p l mem).bind fun _ => .ret _

theorem guest {α : Type} : ∀ g : Guest α, g.Only A → Agree E R g.run g.run
  | .done a, _ => .ret _
  | .trap msg, _ => .ret _
  | .call c mem k, hg => by
    unfold Guest.run
    refine (h.runHostCall c mem hg.1).bind fun r => ?_
    cases r with
    | ok p => exact guest _ (hg.2 _ _)
    | error t => exact .ret _

end HostSim

end

/-! ### The engine -/

section
variable {P : Primitives} {W : Wasmtime} {cfg : VmConfig}
variable {σ σ' : Type} [Backend σ] [Backend σ']

/-- What is asked besides for a call: guests make allowed calls only, and states that an error has
blanked stay related by `R'`. -/
structure CallSim (W : Wasmtime) (E : VmState W.Module σ → Prop)
    (R R' : VmState W.Module σ → VmState W.Module σ' → Prop)
    (C : ExecutionContext → ExecutionContext → Prop) (A : HostCall → Prop) : Prop
    extends HostSim E R C A where
  instantiate : ∀ m fuel, (W.instantiate m fuel).Only A
  guestCall : ∀ inst name args, (W.call inst name args).Only A
  done : ∀ s s', R s s' → R' s s'
  blank : Sim E R R' Eq (modifyContext fun _ => ExecutionContext.blank)
    (modifyContext fun _ => ExecutionContext.blank)
  gasSince : ∀ n, Sim E R' R' Eq (gasSince n) (gasSince n)
  takeLogs : Sim E R' R' Eq takeLogs takeLogs

namespace CallSim

variable {E : VmState W.Module σ → Prop} {R R' : VmState W.Module σ → VmState W.Module σ' → Prop}
variable {C : ExecutionContext → ExecutionContext → Prop} {A : HostCall → Prop}
variable (h : CallSim W E R R' C A)

include h

theorem runGuest {α : Type} (onTrap : String → VmError) {g : Guest α} (hg : g.Only A) :
    Agree E R (runGuest W onTrap g : ExceptT VmError (VmM W.Module σ) α).run
      (runGuest W onTrap g : ExceptT VmError (VmM W.Module σ') α).run := by
  refine (h.guest g hg).bind fun r => ?_
  cases r with
  | ok a => exact .ret _
  | error t => exact .ret _

theorem callPlain (inst : W.Instance) (name : String) :
    Agree E R (callPlain W inst name : ExceptT VmError (VmM W.Module σ) Bytes).run
      (callPlain W inst name : ExceptT VmError (VmM W.Module σ') Bytes).run := by
  unfold Vm.callPlain
  split_ifs
  · exact .ret _
  · exact sim_exceptBind (h.runGuest _ (h.guestCall _ _ _)) fun _ => .ret _

theorem callWithArgs (inst : W.Instance) (name : String) (args : Bytes) :
    Agree E R (callWithArgs W inst name args : ExceptT VmError (VmM W.Module σ) Bytes).run
      (callWithArgs W inst name args : ExceptT VmError (VmM W.Module σ') Bytes).run := by
  refine sim_exceptBind (h.runGuest _ (h.guestCall _ _ _)) fun r => ?_
  obtain ⟨ptr, inst'⟩ := r
  dsimp only
  cases W.memory inst' with
  | none => exact .ret _
  | some mem =>
    dsimp only
    cases mem.write (asUsize ptr) args with
    | none => exact .ret _
    | some mem' =>
      dsimp only
      split_ifs
      · exact .ret _
      · exact sim_exceptBind (h.runGuest _ (h.guestCall _ _ _)) fun _ => .ret _

omit h in
theorem invoke_run (module : W.Module) (name : String) (args : Bytes) :
    (invoke W cfg module name args : ExceptT VmError (VmM W.Module σ) Bytes).run =
      (getContext >>= fun c => (do
        let inst ← Vm.runGuest W .execution (W.instantiate module
          (if cfg.fuelMetering then some c.gasMeter.remaining else none))
        if args.isEmpty = false && W.hasFunc inst "allocate" .i32ToI32 then
          Vm.callWithArgs W inst name args
        else Vm.callPlain W inst name : ExceptT VmError (VmM W.Module σ) Bytes).run) := rfl

theorem invoke (module : W.Module) (name : String) (args : Bytes) :
    Agree E R (invoke W cfg module name args : ExceptT VmError (VmM W.Module σ) Bytes).run
      (invoke W cfg module name args : ExceptT VmError (VmM W.Module σ') Bytes).run := by
  rw [invoke_run, invoke_run]
  refine h.withContext fun c c' hc => ?_
  rw [h.gasMeter c c' hc]
  refine sim_exceptBind (h.runGuest _ (h.instantiate _ _)) fun inst => ?_
  split_ifs
  · exact h.callWithArgs _ _ _
  · exact h.callPlain _ _

theorem executeFunction (module : W.Module) (name : String) (args : Bytes) :
    Sim E R R' Eq (executeFunction W cfg module name args : VmM W.Module σ _)
      (executeFunction W cfg module name args : VmM W.Module σ' _) := by
  refine (h.invoke module name args).bind fun r => ?_
  cases r with
  | ok data => exact Sim.pure rfl h.done
  | error e => exact h.blank.bind fun _ => .ret _

theorem callContract {codeHash : Blake3Hash}
    (hload : Agree E R (loadModule P W cfg codeHash) (loadModule P W cfg codeHash))
    (name : String) (args : Bytes) :
    Sim E R R' Eq (callContract P W cfg codeHash name args : VmM W.Module σ _)
      (callContract P W cfg codeHash name args : VmM W.Module σ' _) := by
  refine hload.bind fun r => ?_
  cases r with
  | error e => exact Sim.pure rfl h.done
  | ok module =>
    refine h.withContext fun c c' hc => ?_
    rw [h.gasMeter c c' hc]
    refine (h.executeFunction module name args).bind fun r => ?_
    split
    · exact (h.gasSince _).bind fun _ => h.takeLogs.bind fun _ => .ret _
    · exact .ret _
    · exact (h.gasSince _).bind fun _ => .ret _

/-- **A deployment** runs the same on both sides, if the code is compiled in the same way and the
contract gets the same address. -/
theorem deployContract {R₀ : VmState W.Module σ → VmState W.Module σ' → Prop} {code : Bytes}
    (hcompile : Agree E R₀ (compileModule P W cfg code) (compileModule P W cfg code))
    (hcontext : Sim E R₀ R₀ (fun c c' => c.caller = c'.caller ∧ c.blockNumber = c'.blockNumber ∧
      c.gasMeter = c'.gasMeter) getContext getContext)
    (haddress : ∀ a, Sim E R₀ R Eq (modifyContext fun c => { c with contractAddress := a })
      (modifyContext fun c => { c with contractAddress := a }))
    (hdone : ∀ s s', R₀ s s' → R' s s') (args : Bytes) :
    Sim E R₀ R' Eq (deployContract P W cfg code args : VmM W.Module σ _)
      (deployContract P W cfg code args : VmM W.Module σ' _) := by
  refine hcompile.bind fun r => ?_
  cases r with
  | error e => exact Sim.pure rfl hdone
  | ok p =>
    refine hcontext.bind_refl (fun _ => ⟨rfl, rfl, rfl⟩) ?_
    rintro c c' ⟨h1, h2, h3⟩
    rw [h1, h2, h3]
    refine (haddress _).bind fun _ => (h.executeFunction _ _ _).bind fun r => ?_
    split
    · exact (h.gasSince _).bind fun _ => h.takeLogs.bind fun _ => .ret _
    · exact (h.gasSince _).bind fun _ => h.takeLogs.bind fun _ => .ret _
    · exact .ret _

end CallSim

end

end Rustchain.Vm
