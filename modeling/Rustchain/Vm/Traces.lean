import Rustchain.Lib.Partial
import Rustchain.Vm.Engine

/-! # Traces of executions

An execution makes host calls, and each of them may be noted down. What is noted of a guest, and of
the guests that an execution runs one after the other, is a list; a relation between states that
composes along such lists and holds for every host call with its note holds for the whole execution
with its trace (`TraceRelation.invoke`). -/

namespace Rustchain.Vm

open Rustchain.Core Storage Lib.Machine Lib.Maps Lib.Partial

/-! ### What is noted -/

section
variable {M σ ε : Type} [Backend σ] (note : HostCall → Option Memory → VmState M σ → List ε)

/-- What is noted of the host calls that a guest makes, in turn. -/
def Guest.trace {α : Type} : Guest α → VmState M σ → List ε
  | .done _, _ => []
  | .trap _, _ => []
  | .call c mem k, s =>
    note c mem s ++ (runHostCall c mem s).elim [] fun p =>
      match p.1 with
      | .ok v => (k v.1 v.2).trace p.2
      | .error _ => []

/-- The trace of a guest, and of what comes after it if it returns. -/
def Guest.traceThen {α : Type} (g : Guest α) (rest : α → VmState M σ → List ε)
    (s : VmState M σ) : List ε :=
  g.trace note s ++ (g.run s).elim [] fun p =>
    match p.1 with
    | .ok a => rest a p.2
    | .error _ => []

end

section
variable (W : Wasmtime) (cfg : VmConfig) {σ ε : Type} [Backend σ]
  (note : HostCall → Option Memory → VmState W.Module σ → List ε)

/-- The trace of `callPlain`. -/
def callPlainTrace (inst : W.Instance) (functionName : String) (s : VmState W.Module σ) : List ε :=
  if W.hasFunc inst functionName .unitToI32 = false then []
  else (W.call inst functionName []).trace note s

/-- The trace of `callWithArgs` after the allocation. -/
def allocatedTrace (functionName : String) (args : Bytes) (allocated : Int32 × W.Instance)
    (s : VmState W.Module σ) : List ε :=
  ((W.memory allocated.2).bind fun mem => mem.write (asUsize allocated.1) args).elim [] fun mem =>
    let inst := W.setMemory allocated.2 mem
    if W.hasFunc inst functionName .i32I32ToI32 = false then []
    else (W.call inst functionName [allocated.1, Int32.ofNat args.length]).trace note s

/-- The trace of an execution after the instance is there. -/
def instantiatedTrace (functionName : String) (args : Bytes) (inst : W.Instance)
    (s : VmState W.Module σ) : List ε :=
  if args.isEmpty = false && W.hasFunc inst "allocate" .i32ToI32 then
    (W.call inst "allocate" [Int32.ofNat args.length]).traceThen note
      (allocatedTrace W note functionName args) s
  else callPlainTrace W note inst functionName s

/-- **The trace of an execution** of a function of a module. -/
def invokeTrace (module : W.Module) (functionName : String) (args : Bytes)
    (s : VmState W.Module σ) : List ε :=
  (W.instantiate module (if cfg.fuelMetering then some s.context.gasMeter.remaining else none)
    ).traceThen note (instantiatedTrace W note functionName args) s

end

/-! ### Steps that can fail -/

section
variable {W : Wasmtime} {cfg : VmConfig} {σ : Type} {s s' : VmState W.Module σ}

theorem exceptBind_eq_some {α β : Type} {x : ExceptT VmError (VmM W.Module σ) α}
    {f : α → ExceptT VmError (VmM W.Module σ) β} {r : Except VmError β}
    (h : (x >>= f).run s = some (r, s')) :
    (∃ e, x.run s = some (.error e, s') ∧ r = .error e) ∨
      ∃ a s1, x.run s = some (.ok a, s1) ∧ (f a).run s1 = some (r, s') := by
  rw [ExceptT.run_bind] at h
  obtain ⟨res, s1, h1, h2⟩ := bind_eq_some.mp h
  cases res with
  | error e =>
    obtain ⟨rfl, rfl⟩ := pure_eq_some h2
    exact .inl ⟨e, h1, rfl⟩
  | ok a => exact .inr ⟨a, s1, h1, h2⟩

theorem throw_bind_eq_some {α β : Type} {e : VmError} {f : α → ExceptT VmError (VmM W.Module σ) β}
    {r : Except VmError β}
    (h : (throw e >>= f : ExceptT VmError (VmM W.Module σ) β).run s = some (r, s')) :
    r = .error e ∧ s' = s := by
  obtain ⟨rfl, rfl⟩ := pure_eq_some h
  exact ⟨rfl, rfl⟩

variable [Backend σ]

theorem runGuest_eq_some {α : Type} {onTrap : String → VmError} {g : Guest α} {r : Except VmError α}
    (h : (runGuest W onTrap g : ExceptT VmError (VmM W.Module σ) α).run s = some (r, s')) :
    (∃ t, g.run s = some (.error t, s') ∧ r = .error (onTrap (W.describe t))) ∨
      ∃ a, g.run s = some (.ok a, s') ∧ r = .ok a := by
  obtain ⟨r', s1, h1, h2⟩ := bind_eq_some.mp h
  cases r' with
  | ok a =>
    obtain ⟨rfl, rfl⟩ := pure_eq_some h2
    exact .inr ⟨a, h1, rfl⟩
  | error t =>
    obtain ⟨rfl, rfl⟩ := pure_eq_some h2
    exact .inl ⟨t, h1, rfl⟩

end

/-! ### The rule -/

/-- **A relation that holds along traces.** -/
structure TraceRelation {M σ ε : Type} [Backend σ]
    (note : HostCall → Option Memory → VmState M σ → List ε)
    (R : List ε → VmState M σ → VmState M σ → Prop) : Prop where
  refl : ∀ s, R [] s s
  append : ∀ {as bs s t u}, R as s t → R bs t u → R (as ++ bs) s u
  call : ∀ {c mem s r s'}, runHostCall c mem s = some (r, s') → R (note c mem s) s s'

namespace TraceRelation

section
variable {M σ ε : Type} [Backend σ] {note : HostCall → Option Memory → VmState M σ → List ε}
  {R : List ε → VmState M σ → VmState M σ → Prop} (h : TraceRelation note R)

include h

/-- **The rule for guests**: what holds of every host call with its note holds of a run with its
trace. -/
theorem guest {α : Type} (g : Guest α) : ∀ {s s' : VmState M σ} {r : Except Trap α},
    g.run s = some (r, s') → R (g.trace note s) s s' := by
  induction g with
  | done a =>
    intro s s' r hrun
    obtain ⟨-, rfl⟩ := pure_eq_some hrun
    exact h.refl _
  | trap msg =>
    intro s s' r hrun
    obtain ⟨-, rfl⟩ := pure_eq_some hrun
    exact h.refl _
  | call c mem k ih =>
    intro s s' r hrun
    unfold Guest.run at hrun
    obtain ⟨res, s1, h1, h2⟩ := bind_eq_some.mp hrun
    unfold Guest.trace
    rw [h1]
    refine h.append (h.call h1) ?_
    cases res with
    | error t =>
      obtain ⟨-, rfl⟩ := pure_eq_some h2
      exact h.refl _
    | ok v => exact ih v.1 v.2 h2

end

section
variable {W : Wasmtime} {cfg : VmConfig} {σ ε : Type} [Backend σ]
  {note : HostCall → Option Memory → VmState W.Module σ → List ε}
  {R : List ε → VmState W.Module σ → VmState W.Module σ → Prop} (h : TraceRelation note R)
  {s s' : VmState W.Module σ}

include h

variable {onTrap : String → VmError}

theorem runGuest {α : Type} {g : Guest α} {r : Except VmError α}
    (hrun : (runGuest W onTrap g : ExceptT VmError (VmM W.Module σ) α).run s = some (r, s')) :
    R (g.trace note s) s s' := by
  rcases runGuest_eq_some hrun with ⟨t, hrun, -⟩ | ⟨a, hrun, -⟩
  · exact h.guest g hrun
  · exact h.guest g hrun

theorem runGuest_bind {α β : Type} {g : Guest α} {f : α → ExceptT VmError (VmM W.Module σ) β}
    {rest : α → VmState W.Module σ → List ε} {r : Except VmError β}
    (hrest : ∀ a s1, (f a).run s1 = some (r, s') → R (rest a s1) s1 s')
    (hrun : (Vm.runGuest W onTrap g >>= f).run s = some (r, s')) :
    R (g.traceThen note rest s) s s' := by
  unfold Guest.traceThen
  rcases exceptBind_eq_some hrun with ⟨e, h1, -⟩ | ⟨a, s1, h1, h2⟩
  · refine h.append (h.runGuest h1) ?_
    rcases runGuest_eq_some h1 with ⟨t, hg, -⟩ | ⟨a, -, he⟩
    · rw [hg]
      exact h.refl _
    · cases he
  · refine h.append (h.runGuest h1) ?_
    rcases runGuest_eq_some h1 with ⟨t, -, he⟩ | ⟨b, hg, he⟩
    · cases he
    · obtain rfl := Except.ok.inj he
      rw [hg]
      exact hrest a s1 h2

theorem runGuest_pure {α β : Type} {g : Guest α} {f : α → β} {r : Except VmError β}
    (hrun : (do return f (← Vm.runGuest W onTrap g) : ExceptT VmError (VmM W.Module σ) β).run s =
      some (r, s')) :
    R (g.trace note s) s s' := by
  rcases exceptBind_eq_some hrun with ⟨e, h1, -⟩ | ⟨a, s1, h1, h2⟩
  · exact h.runGuest h1
  · obtain ⟨-, rfl⟩ := pure_eq_some h2
    exact h.runGuest h1

variable {r : Except VmError Bytes}

theorem callPlain {inst : W.Instance} {functionName : String}
    (hrun : (callPlain W inst functionName).run s = some (r, s')) :
    R (callPlainTrace W note inst functionName s) s s' := by
  unfold Vm.callPlain at hrun
  unfold callPlainTrace
  split_ifs at hrun ⊢ with hfunc
  · obtain ⟨-, rfl⟩ := throw_bind_eq_some hrun
    exact h.refl _
  · exact h.runGuest_pure hrun

theorem callWithArgs {inst : W.Instance} {functionName : String} {args : Bytes}
    (hrun : (callWithArgs W inst functionName args).run s = some (r, s')) :
    R ((W.call inst "allocate" [Int32.ofNat args.length]).traceThen note
      (allocatedTrace W note functionName args) s) s s' := by
  unfold Vm.callWithArgs at hrun
  refine h.runGuest_bind ?_ hrun
  rintro ⟨ptr, inst'⟩ s1 h2
  unfold allocatedTrace
  dsimp only at h2 ⊢
  cases hmem : W.memory inst' with
  | none =>
    rw [hmem] at h2
    obtain ⟨-, rfl⟩ := pure_eq_some h2
    exact h.refl _
  | some mem =>
    rw [hmem] at h2
    dsimp only [Option.bind_some] at h2 ⊢
    cases hwrite : mem.write (asUsize ptr) args with
    | none =>
      rw [hwrite] at h2
      obtain ⟨-, rfl⟩ := pure_eq_some h2
      exact h.refl _
    | some mem' =>
      rw [hwrite] at h2
      dsimp only [Option.elim_some] at h2 ⊢
      split_ifs at h2 ⊢ with hfunc
      · obtain ⟨-, rfl⟩ := throw_bind_eq_some h2
        exact h.refl _
      · exact h.runGuest_pure h2

theorem invoke {module : W.Module} {functionName : String} {args : Bytes}
    (hrun : (invoke W cfg module functionName args).run s = some (r, s')) :
    R (invokeTrace W cfg note module functionName args s) s s' := by
  unfold Vm.invoke at hrun
  rcases exceptBind_eq_some hrun with ⟨e, h1, -⟩ | ⟨ctx, s1, h1, h2⟩
  · cases h1
  · obtain ⟨rfl, rfl⟩ : s.context = ctx ∧ s = s1 := by
      cases h1
      exact ⟨rfl, rfl⟩
    refine h.runGuest_bind ?_ h2
    intro inst s1 h3
    unfold instantiatedTrace
    split_ifs at h3 ⊢ with hargs
    · exact h.callWithArgs h3
    · exact h.callPlain h3

end

end TraceRelation

end Rustchain.Vm
