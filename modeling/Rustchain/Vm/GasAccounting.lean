import Rustchain.Vm.Metering

/-! # What is handed back after an execution

`execute_function` moves the context into the store of the instance and moves it back only when the
function returns. Here is what the caller of `deploy_contract` and `call_contract` finds afterwards,
on every path, and the paths on which it finds its own context, with a meter that shows what was
consumed, and is told that amount (`gasAccounted_iff`). -/

namespace Rustchain.Vm

open Rustchain.Core Storage Lib.Machine Lib.Maps Lib.Partial

/-- **A call into the engine.** -/
inductive Entry where
  | deploy (code constructorArgs : Bytes)
  | call (codeHash : Blake3Hash) (function : String) (args : Bytes)

section
variable (P : Primitives) (W : Wasmtime) (cfg : VmConfig) {σ : Type} [Backend σ]

namespace Entry

/-- What comes before the execution: the module is looked up or compiled, and a deployment sets the
address of the contract. The function and its arguments are those that are executed then. -/
def enter : Entry → VmM W.Module σ (Except VmError (W.Module × String × Bytes))
  | .deploy code constructorArgs => do
    match ← compileModule P W cfg code with
    | .error e => return .error e
    | .ok (module, _) =>
      modifyContext fun c => { c with contractAddress := deployAddress P c.caller c.blockNumber }
      return .ok (module, "init", constructorArgs)
  | .call codeHash function args => do
    match ← loadModule P W cfg codeHash with
    | .error e => return .error e
    | .ok module => return .ok (module, function, args)

/-- The whole call, and the gas that it reports to be used. -/
def run : Entry → VmM W.Module σ (Except VmError ℕ)
  | .deploy code constructorArgs => do
    return (← deployContract P W cfg code constructorArgs).map DeployResult.gasUsed
  | .call codeHash function args => do
    return (← callContract P W cfg codeHash function args).map CallResult.gasUsed

/-- The context with which the execution starts. -/
def start (entry : Entry) (s : VmState W.Module σ) : ExecutionContext :=
  (((entry.enter P W cfg s).map Prod.snd).getD s).context

def calls (entry : Entry) (s : VmState W.Module σ) : List HostCall :=
  match entry.enter P W cfg s with
  | some (.ok (module, function, args), s1) => invokeCalls W cfg module function args s1
  | _ => []

/-- The execution fails: a missing function, a trap, an abort or exhausted fuel. -/
def Fails (entry : Entry) (s : VmState W.Module σ) : Prop :=
  ∃ module function args s1 e s2, entry.enter P W cfg s = some (.ok (module, function, args), s1) ∧
    (invoke W cfg module function args).run s1 = some (.error e, s2)

/-- The execution ends as the engine takes for a success: the function returns, or it is the
constructor and there is none. -/
def Completes (entry : Entry) (s : VmState W.Module σ) : Prop :=
  ∃ module function args s1 r s2,
    entry.enter P W cfg s = some (.ok (module, function, args), s1) ∧
    (invoke W cfg module function args).run s1 = some (r, s2) ∧
    ((∃ data, r = .ok data) ∨
      (∃ code constructorArgs, entry = .deploy code constructorArgs) ∧
        ∃ name, r = .error (.functionNotFound name))

end Entry

end

/-- **An execution is accounted for**: the caller has its context back, the meter shows what was
consumed, and the gas that is reported to be used is that. -/
structure Accounted (c c' : ExecutionContext) (consumed : ℕ) (reported : Except VmError ℕ) :
    Prop where
  setting : SameSetting c c'
  meter : c'.gasMeter = c.gasMeter.after consumed
  reported : ∀ g, reported = .ok g → c.gasMeter.consumed + g = c'.gasMeter.consumed

section
variable {P : Primitives} {W : Wasmtime} {cfg : VmConfig} {σ : Type} {s s' : VmState W.Module σ}

/-! ### Errors of an execution -/

/-- Every error of `x` has the property. -/
def Throws {α : Type} (Q : VmError → Prop) (x : ExceptT VmError (VmM W.Module σ) α) : Prop :=
  ∀ s e s', x.run s = some (.error e, s') → Q e

theorem Throws.bind {α β : Type} {Q : VmError → Prop} {x : ExceptT VmError (VmM W.Module σ) α}
    {f : α → ExceptT VmError (VmM W.Module σ) β} (hx : Throws Q x) (hf : ∀ a, Throws Q (f a)) :
    Throws Q (x >>= f) := by
  intro s e s' h
  rcases exceptBind_eq_some h with ⟨e', h1, he⟩ | ⟨a, s1, -, h2⟩
  · obtain rfl := Except.error.inj he
    exact hx s e s' h1
  · exact hf a s1 e s' h2

theorem Throws.pure {α : Type} {Q : VmError → Prop} (a : α) :
    Throws Q (pure a : ExceptT VmError (VmM W.Module σ) α) := by
  intro s e s' h
  cases (pure_eq_some h).1

theorem Throws.throw {α : Type} {Q : VmError → Prop} {e : VmError} (h : Q e) :
    Throws Q (throw e : ExceptT VmError (VmM W.Module σ) α) := by
  intro s e' s' he
  obtain rfl := Except.error.inj (pure_eq_some he).1
  exact h

variable [Backend σ]

theorem Throws.runGuest {α : Type} {Q : VmError → Prop} {onTrap : String → VmError} (g : Guest α)
    (h : ∀ msg, Q (onTrap msg)) :
    Throws Q (runGuest W onTrap g : ExceptT VmError (VmM W.Module σ) α) := by
  intro s e s' hrun
  rcases runGuest_eq_some hrun with ⟨t, -, he⟩ | ⟨a, -, he⟩
  · obtain rfl := Except.error.inj he
    exact h _
  · cases he

/-- The meter is asked by the host functions only, and they do not hand its error on. -/
def NotOutOfGas (e : VmError) : Prop := ∀ limit used, e ≠ .outOfGas limit used

theorem throws_callPlain (inst : W.Instance) (functionName : String) :
    Throws NotOutOfGas (callPlain W inst functionName : ExceptT VmError (VmM W.Module σ) _) := by
  unfold callPlain
  split_ifs
  · exact Throws.bind (Throws.throw nofun) fun _ => Throws.bind
      (Throws.runGuest _ fun _ => nofun) fun _ => Throws.pure _
  · exact Throws.bind (Throws.runGuest _ fun _ => nofun) fun _ => Throws.pure _

theorem throws_callWithArgs (inst : W.Instance) (functionName : String) (args : Bytes) :
    Throws NotOutOfGas
      (callWithArgs W inst functionName args : ExceptT VmError (VmM W.Module σ) _) := by
  refine Throws.bind (Throws.runGuest _ fun _ => nofun) fun p => ?_
  obtain ⟨ptr, inst⟩ := p
  dsimp only
  split
  · exact Throws.throw nofun
  · split
    · exact Throws.throw nofun
    · split_ifs
      · exact Throws.bind (Throws.throw nofun) fun _ => Throws.bind
          (Throws.runGuest _ fun _ => nofun) fun _ => Throws.pure _
      · exact Throws.bind (Throws.runGuest _ fun _ => nofun) fun _ => Throws.pure _

theorem throws_invoke (module : W.Module) (functionName : String) (args : Bytes) :
    Throws NotOutOfGas
      (invoke W cfg module functionName args : ExceptT VmError (VmM W.Module σ) _) := by
  intro s e s' h
  rcases exceptBind_eq_some h with ⟨e', h1, -⟩ | ⟨ctx, s1, -, h2⟩
  · cases h1
  · refine Throws.bind (Throws.runGuest _ fun _ => nofun) (fun inst => ?_) s1 e s' h2
    split_ifs
    · exact throws_callWithArgs inst functionName args
    · exact throws_callPlain inst functionName

/-! ### What the engine returns and leaves -/

theorem executeFunction_cases {module : W.Module} {functionName : String} {args : Bytes}
    {r : Except VmError Bytes}
    (h : executeFunction W cfg module functionName args s = some (r, s')) :
    (∃ data, r = .ok data ∧ (invoke W cfg module functionName args).run s = some (.ok data, s')) ∨
      ∃ e s2, r = .error e ∧
        (invoke W cfg module functionName args).run s = some (.error e, s2) ∧
        s'.context = .blank := by
  unfold executeFunction at h
  obtain ⟨x, s2, h1, h2⟩ := bind_eq_some.mp h
  cases x with
  | ok data =>
    obtain ⟨rfl, rfl⟩ := pure_eq_some h2
    exact .inl ⟨data, rfl, h1⟩
  | error e =>
    obtain ⟨_, s3, h3, h4⟩ := bind_eq_some.mp h2
    obtain ⟨rfl, rfl⟩ := pure_eq_some h4
    obtain ⟨-, rfl⟩ := some_pair_inj h3
    exact .inr ⟨e, s2, rfl, h1, rfl⟩

def gasUsed (c c' : ExecutionContext) : ℕ :=
  (subU 64 c'.gasMeter.consumed c.gasMeter.consumed).val

omit [Backend σ] in
theorem gasSince_eq_some {c : ExecutionContext} {n : ℕ}
    (h : gasSince c.gasMeter.consumed s = some (n, s')) :
    n = gasUsed c s.context ∧ s'.context = s.context := by
  obtain ⟨rfl, rfl⟩ := some_pair_inj h
  exact ⟨rfl, rfl⟩

omit [Backend σ] in
theorem finish_eq_some {α : Type} {c : ExecutionContext} {f : ℕ → List EventLog → α} {r : α}
    (h : (do
      let gasUsed ← gasSince c.gasMeter.consumed
      let logs ← takeLogs
      return f gasUsed logs : VmM W.Module σ α) s = some (r, s')) :
    r = f (gasUsed c s.context) s.context.logs ∧ s'.context = { s.context with logs := [] } := by
  obtain ⟨g, s1, hg, h⟩ := bind_eq_some.mp h
  obtain ⟨logs, s2, hlogs, h⟩ := bind_eq_some.mp h
  obtain ⟨rfl, rfl⟩ := pure_eq_some h
  obtain ⟨rfl, hs1⟩ := gasSince_eq_some hg
  obtain ⟨rfl, rfl⟩ := some_pair_inj hlogs
  rw [hs1]
  exact ⟨rfl, rfl⟩

/-- **A call** fails before the execution, or returns with the context of the store, or fails with
the blank one. -/
theorem callContract_cases {codeHash : Blake3Hash} {function : String} {args : Bytes}
    {r : Except VmError CallResult}
    (h : callContract P W cfg codeHash function args s = some (r, s')) :
    (∃ e, loadModule P W cfg codeHash s = some (.error e, s') ∧ r = .error e) ∨
      ∃ module s1 s2, loadModule P W cfg codeHash s = some (.ok module, s1) ∧
        ((∃ data, (invoke W cfg module function args).run s1 = some (.ok data, s2) ∧
            s'.context = { s2.context with logs := [] } ∧
            r = .ok ⟨data, gasUsed s1.context s2.context, s2.context.logs, .success⟩) ∨
          ∃ e, (invoke W cfg module function args).run s1 = some (.error e, s2) ∧
            s'.context = .blank ∧
            r = .ok ⟨[], gasUsed s1.context .blank, [], .failure e.display⟩) := by
  unfold callContract at h
  obtain ⟨m, s1, hload, h⟩ := bind_eq_some.mp h
  cases m with
  | error e =>
    obtain ⟨rfl, rfl⟩ := pure_eq_some h
    exact .inl ⟨e, hload, rfl⟩
  | ok module =>
    obtain ⟨ctx, s1', hctx, h⟩ := bind_eq_some.mp h
    obtain ⟨rfl, rfl⟩ := some_pair_inj hctx
    obtain ⟨x, s3, hexec, h⟩ := bind_eq_some.mp h
    rcases executeFunction_cases hexec with ⟨data, rfl, hinvoke⟩ | ⟨e, s2, hx, hinvoke, hblank⟩
    · obtain ⟨rfl, hcontext⟩ := finish_eq_some h
      exact .inr ⟨module, s1, s3, hload, .inl ⟨data, hinvoke, hcontext, rfl⟩⟩
    · refine .inr ⟨module, s1, s2, hload, .inr ⟨e, hinvoke, ?_⟩⟩
      split at h
      · cases hx
      · exact absurd (Except.error.inj hx).symm
          (throws_invoke module function args _ _ _ hinvoke _ _)
      · obtain rfl := Except.error.inj hx
        obtain ⟨g, s4, hg, h⟩ := bind_eq_some.mp h
        obtain ⟨rfl, rfl⟩ := pure_eq_some h
        obtain ⟨rfl, hcontext⟩ := gasSince_eq_some hg
        rw [hblank] at hcontext ⊢
        exact ⟨hcontext, rfl⟩

/-- The state in which the constructor is executed. -/
def deploying {M : Type} (P : Primitives) (s : VmState M σ) : VmState M σ :=
  { s with context := { s.context with
      contractAddress := deployAddress P s.context.caller s.context.blockNumber } }

/-- **A deployment** fails before the execution, or returns with the context of the store, or fails
with the blank one; and if only the constructor is missing, it goes on with the blank one. -/
theorem deployContract_cases {code args : Bytes} {r : Except VmError DeployResult}
    (h : deployContract P W cfg code args s = some (r, s')) :
    (∃ e, compileModule P W cfg code s = some (.error e, s') ∧ r = .error e) ∨
      ∃ p s1 s2, compileModule P W cfg code s = some (.ok p, s1) ∧
        ((∃ data, (invoke W cfg p.1 "init" args).run (deploying P s1) = some (.ok data, s2) ∧
            s'.context = { s2.context with logs := [] } ∧
            r = .ok ⟨(deploying P s1).context.contractAddress, p.2,
              gasUsed (deploying P s1).context s2.context, s2.context.logs⟩) ∨
          ∃ e, (invoke W cfg p.1 "init" args).run (deploying P s1) = some (.error e, s2) ∧
            s'.context = .blank ∧
            (r = .error e ∧ (∀ name, e ≠ .functionNotFound name) ∨
              (∃ name, e = .functionNotFound name) ∧
                r = .ok ⟨(deploying P s1).context.contractAddress, p.2,
                  gasUsed (deploying P s1).context .blank, []⟩)) := by
  unfold deployContract at h
  obtain ⟨m, s1, hcompile, h⟩ := bind_eq_some.mp h
  cases m with
  | error e =>
    obtain ⟨rfl, rfl⟩ := pure_eq_some h
    exact .inl ⟨e, hcompile, rfl⟩
  | ok p =>
    obtain ⟨ctx, s1', hctx, h⟩ := bind_eq_some.mp h
    obtain ⟨rfl, rfl⟩ := some_pair_inj hctx
    obtain ⟨_, t, ht, h⟩ := bind_eq_some.mp h
    obtain ⟨-, rfl⟩ := some_pair_inj ht
    obtain ⟨x, s3, hexec, h⟩ := bind_eq_some.mp h
    rcases executeFunction_cases hexec with ⟨data, rfl, hinvoke⟩ | ⟨e, s2, hx, hinvoke, hblank⟩
    · obtain ⟨rfl, hcontext⟩ := finish_eq_some h
      exact .inr ⟨p, s1, s3, hcompile, .inl ⟨data, hinvoke, hcontext, rfl⟩⟩
    · refine .inr ⟨p, s1, s2, hcompile, .inr ⟨e, hinvoke, ?_⟩⟩
      split at h
      · cases hx
      · obtain rfl := Except.error.inj hx
        obtain ⟨rfl, hcontext⟩ := finish_eq_some h
        rw [hblank] at hcontext ⊢
        exact ⟨hcontext, .inr ⟨⟨_, rfl⟩, rfl⟩⟩
      · next e' hother =>
        obtain rfl := Except.error.inj hx
        obtain ⟨rfl, rfl⟩ := pure_eq_some h
        exact ⟨hblank, .inl ⟨rfl, hother⟩⟩

namespace Entry

theorem run_deploy {code args : Bytes} {r : Except VmError DeployResult}
    (h : deployContract P W cfg code args s = some (r, s')) :
    (Entry.deploy code args).run P W cfg s = some (r.map DeployResult.gasUsed, s') :=
  bind_of_eq h

theorem run_call {codeHash : Blake3Hash} {function : String} {args : Bytes}
    {r : Except VmError CallResult}
    (h : callContract P W cfg codeHash function args s = some (r, s')) :
    (Entry.call codeHash function args).run P W cfg s = some (r.map CallResult.gasUsed, s') :=
  bind_of_eq h

/-- **The paths through a call**: it fails before the execution, which then does not happen, or the
execution returns, or it fails. -/
theorem run_cases {entry : Entry} {r : Except VmError ℕ}
    (h : entry.run P W cfg s = some (r, s')) :
    (∃ e, entry.enter P W cfg s = some (.error e, s') ∧ r = .error e) ∨
      ∃ module function args s1 s2,
        entry.enter P W cfg s = some (.ok (module, function, args), s1) ∧
        ((∃ data, (invoke W cfg module function args).run s1 = some (.ok data, s2) ∧
            s'.context = { s2.context with logs := [] } ∧
            r = .ok (gasUsed s1.context s2.context)) ∨
          ∃ e, (invoke W cfg module function args).run s1 = some (.error e, s2) ∧
            s'.context = .blank ∧ (r = .error e ∨ r = .ok (gasUsed s1.context .blank))) := by
  cases entry with
  | deploy code args =>
    obtain ⟨res, s3, h1, h2⟩ := bind_eq_some.mp h
    obtain ⟨rfl, rfl⟩ := pure_eq_some h2
    rcases deployContract_cases h1 with ⟨e, hc, rfl⟩ | ⟨p, s1, s2, hc, hcases⟩
    · exact .inl ⟨e, bind_of_eq hc, rfl⟩
    · refine .inr ⟨p.1, "init", args, deploying P s1, s2, bind_of_eq hc, ?_⟩
      rcases hcases with ⟨data, hrun, hctx, rfl⟩ | ⟨e, hrun, hctx, ⟨rfl, -⟩ | ⟨-, rfl⟩⟩
      · exact .inl ⟨data, hrun, hctx, rfl⟩
      · exact .inr ⟨e, hrun, hctx, .inl rfl⟩
      · exact .inr ⟨e, hrun, hctx, .inr rfl⟩
  | call codeHash function args =>
    obtain ⟨res, s3, h1, h2⟩ := bind_eq_some.mp h
    obtain ⟨rfl, rfl⟩ := pure_eq_some h2
    rcases callContract_cases h1 with ⟨e, hl, rfl⟩ | ⟨module, s1, s2, hl, hcases⟩
    · exact .inl ⟨e, bind_of_eq hl, rfl⟩
    · refine .inr ⟨module, function, args, s1, s2, bind_of_eq hl, ?_⟩
      rcases hcases with ⟨data, hrun, hctx, rfl⟩ | ⟨e, hrun, hctx, rfl⟩
      · exact .inl ⟨data, hrun, hctx, rfl⟩
      · exact .inr ⟨e, hrun, hctx, .inr rfl⟩

theorem completes_iff {entry : Entry} {module : W.Module} {function : String} {args : Bytes}
    {s1 s2 : VmState W.Module σ} {r : Except VmError Bytes}
    (henter : entry.enter P W cfg s = some (.ok (module, function, args), s1))
    (hrun : (invoke W cfg module function args).run s1 = some (r, s2)) :
    entry.Completes P W cfg s ↔ (∃ data, r = .ok data) ∨
      (∃ code constructorArgs, entry = .deploy code constructorArgs) ∧
        ∃ name, r = .error (.functionNotFound name) := by
  constructor
  · rintro ⟨_, _, _, _, r', _, henter', hrun', h⟩
    cases henter.symm.trans henter'
    cases hrun.symm.trans hrun'
    exact h
  · exact fun h => ⟨module, function, args, s1, r, s2, henter, hrun, h⟩

theorem not_completes {entry : Entry} {e : VmError} {s1 : VmState W.Module σ}
    (h : entry.enter P W cfg s = some (.error e, s1)) : ¬ entry.Completes P W cfg s := by
  rintro ⟨_, _, _, _, _, _, h', -⟩
  cases h.symm.trans h'

theorem deploy_ok_iff {code args : Bytes} {r : Except VmError DeployResult}
    (h : deployContract P W cfg code args s = some (r, s')) :
    (∃ d, r = .ok d) ↔ (Entry.deploy code args).Completes P W cfg s := by
  rcases deployContract_cases h with ⟨e, hc, rfl⟩ | ⟨p, s1, s2, hc, hcases⟩
  · have henter : (Entry.deploy code args).enter P W cfg s = some (.error e, s') := bind_of_eq hc
    exact iff_of_false nofun (not_completes henter)
  · have henter : (Entry.deploy code args).enter P W cfg s =
        some (.ok (p.1, "init", args), deploying P s1) := bind_of_eq hc
    rcases hcases with ⟨data, hrun, -, rfl⟩ | ⟨e, hrun, -, ⟨rfl, hne⟩ | ⟨hname, rfl⟩⟩
    · rw [completes_iff henter hrun]
      exact iff_of_true ⟨_, rfl⟩ (.inl ⟨data, rfl⟩)
    · rw [completes_iff henter hrun]
      refine iff_of_false nofun ?_
      rintro (⟨data, hdata⟩ | ⟨-, name, hname⟩)
      · cases hdata
      · exact hne name (Except.error.inj hname)
    · rw [completes_iff henter hrun]
      obtain ⟨name, rfl⟩ := hname
      exact iff_of_true ⟨_, rfl⟩ (.inr ⟨⟨_, _, rfl⟩, name, rfl⟩)

theorem call_success_iff {codeHash : Blake3Hash} {function : String} {args : Bytes}
    {r : Except VmError CallResult}
    (h : callContract P W cfg codeHash function args s = some (r, s')) :
    (∃ c, r = .ok c ∧ c.status = .success) ↔
      (Entry.call codeHash function args).Completes P W cfg s := by
  rcases callContract_cases h with ⟨e, hl, rfl⟩ | ⟨module, s1, s2, hl, hcases⟩
  · have henter : (Entry.call codeHash function args).enter P W cfg s = some (.error e, s') :=
      bind_of_eq hl
    exact iff_of_false nofun (not_completes henter)
  · have henter : (Entry.call codeHash function args).enter P W cfg s =
        some (.ok (module, function, args), s1) := bind_of_eq hl
    rcases hcases with ⟨data, hrun, -, rfl⟩ | ⟨e, hrun, -, rfl⟩
    · rw [completes_iff henter hrun]
      exact iff_of_true ⟨_, rfl, rfl⟩ (.inl ⟨data, rfl⟩)
    · rw [completes_iff henter hrun]
      refine iff_of_false ?_ ?_
      · rintro ⟨c, hc, hs⟩
        obtain rfl := Except.ok.inj hc
        cases hs
      · rintro (⟨data, hdata⟩ | ⟨⟨code, args', hentry⟩, -⟩)
        · cases hdata
        · cases hentry

omit [Backend σ] in
theorem sameMeter_compileModule (code : Bytes) :
    Keeps SameMeter (compileModule P W cfg code : VmM W.Module σ _) := by
  intro s r s' h
  obtain ⟨cache, rfl⟩ := compileModule_spec h
  rfl

theorem sameMeter_enter (entry : Entry) :
    Keeps SameMeter (entry.enter P W cfg : VmM W.Module σ _) := by
  cases entry with
  | deploy code args =>
    refine meteredRelation_meter.bind (sameMeter_compileModule code) fun r => ?_
    split
    · exact meteredRelation_meter.pure _
    · exact meteredRelation_meter.bind (sameMeter_modifyContext fun _ => rfl) fun _ =>
        meteredRelation_meter.pure _
  | call codeHash function args =>
    refine meteredRelation_meter.bind (meteredRelation_meter.loadModule sameMeter_compileModule
      (fun _ => sameMeter_readState _) codeHash) fun r => ?_
    split <;> exact meteredRelation_meter.pure _

end Entry

/-! ### Which paths are accounted for -/

omit [Backend σ] in
theorem GasMeter.after_eq_after_iff {m : GasMeter} {total fuel : ℕ} (hwf : m.Wf) :
    m.after total = m.after (total + fuel) ↔ fuel = 0 ∨ m.limit ≤ m.consumed + total := by
  have hle := hwf.consumed_le
  simp only [GasMeter.after, GasMeter.mk.injEq, true_and]
  omega

theorem add_gasUsed {c c' : ExecutionContext} {total : ℕ} (hwf : c.gasMeter.Wf)
    (h : c'.gasMeter = c.gasMeter.after total) :
    c.gasMeter.consumed + gasUsed c c' = c'.gasMeter.consumed := by
  obtain ⟨hle, hlt⟩ := hwf
  have hconsumed : c'.gasMeter.consumed = min c.gasMeter.limit (c.gasMeter.consumed + total) := by
    rw [h]
    rfl
  unfold gasUsed
  rw [subU_of_le (by omega)]
  dsimp only
  omega

/-- **A call with a new meter reports no more than the limit**, even if it fails and the gas used is
computed from the blank context. -/
theorem Entry.run_gasUsed_le {entry : Entry} {limit g : ℕ} (hlimit : limit < 2 ^ 64)
    (hnew : s.context.gasMeter = .new limit) (hrun : entry.run P W cfg s = some (.ok g, s')) :
    g ≤ limit := by
  rcases Entry.run_cases hrun with ⟨e, -, he⟩ | ⟨module, function, args, s1, s2, henter, hcases⟩
  · cases he
  · have hmeter : s1.context.gasMeter = .new limit :=
      (Entry.sameMeter_enter entry _ _ _ henter).trans hnew
    have hwf : s1.context.gasMeter.Wf := hmeter ▸ GasMeter.wf_new hlimit
    rcases hcases with ⟨data, hinvoke, -, hg⟩ | ⟨e, -, -, he | hg⟩
    · obtain rfl := Except.ok.inj hg
      have hafter := invoke_meter hwf hinvoke
      have hsum := add_gasUsed hwf hafter
      have hle : s2.context.gasMeter.consumed ≤ limit := by
        rw [hafter, hmeter]
        exact min_le_left _ _
      omega
    · cases he
    · obtain rfl := Except.ok.inj hg
      unfold gasUsed
      rw [hmeter]
      exact Nat.zero_le limit

theorem accounted_of_meter {c c' : ExecutionContext} {total fuel : ℕ} {r : Except VmError ℕ}
    (hwf : c.gasMeter.Wf) (hsetting : SameSetting c c')
    (hmeter : c'.gasMeter = c.gasMeter.after total)
    (hr : ∀ g, r = .ok g → c.gasMeter.consumed + g = c'.gasMeter.consumed) :
    Accounted c c' (total + fuel) r ↔
      fuel = 0 ∨ c.gasMeter.limit ≤ c.gasMeter.consumed + total := by
  rw [← GasMeter.after_eq_after_iff hwf, ← hmeter]
  exact ⟨fun h => h.meter, fun h => ⟨hsetting, h, hr⟩⟩

theorem accounted_blank {c : ExecutionContext} {consumed : ℕ} {r : Except VmError ℕ}
    (hwf : c.gasMeter.Wf) (hr : ∀ g, r = .ok g → g = gasUsed c .blank) :
    Accounted c .blank consumed r ↔ SameSetting c .blank := by
  refine ⟨Accounted.setting, fun h => ?_⟩
  have hlimit : 0 = c.gasMeter.limit := h.limit
  have hmeter : ExecutionContext.blank.gasMeter = c.gasMeter.after consumed := by
    show GasMeter.mk 0 0 = _
    unfold GasMeter.after
    rw [← hlimit, Nat.zero_min]
  exact ⟨h, hmeter, fun g hg => hr g hg ▸ add_gasUsed hwf hmeter⟩

/-- **Which calls are accounted for**, if the runtime burns `fuel` on instructions: those whose
execution does not fail, when the meter shows all that was consumed without the fuel; and those that
were set up with the blank context in the first place. -/
theorem gasAccounted_iff (hwf : s.context.gasMeter.Wf) {entry : Entry} {r : Except VmError ℕ}
    (hrun : entry.run P W cfg s = some (r, s')) (fuel : ℕ) :
    Accounted (entry.start P W cfg s) s'.context (totalCharge (entry.calls P W cfg s) + fuel) r ↔
      (¬ entry.Fails P W cfg s ∧ (fuel = 0 ∨ s.context.gasMeter.limit ≤
          s.context.gasMeter.consumed + totalCharge (entry.calls P W cfg s))) ∨
        (entry.Fails P W cfg s ∧ SameSetting (entry.start P W cfg s) .blank) := by
  rcases Entry.run_cases hrun with ⟨e, henter, rfl⟩ |
    ⟨module, function, args, s1, s2, henter, hcases⟩
  · have hsame : s'.context.gasMeter = s.context.gasMeter :=
      Entry.sameMeter_enter entry _ _ _ henter
    have hfails : ¬ entry.Fails P W cfg s := by
      rintro ⟨module, function, args, s1, e', s2, h, -⟩
      cases henter.symm.trans h
    have hstart : entry.start P W cfg s = s'.context := by
      simp only [Entry.start, henter]
      rfl
    have hcalls : entry.calls P W cfg s = [] := by
      simp only [Entry.calls, henter]
    simp only [hfails, not_false_eq_true, true_and, false_and, or_false, hstart, hcalls]
    rw [← hsame] at hwf ⊢
    exact accounted_of_meter hwf (.refl _) (GasMeter.after_zero hwf).symm nofun
  · have hsame : s1.context.gasMeter = s.context.gasMeter :=
      Entry.sameMeter_enter entry _ _ _ henter
    have hstart : entry.start P W cfg s = s1.context := by
      simp only [Entry.start, henter]
      rfl
    have hcalls : entry.calls P W cfg s = invokeCalls W cfg module function args s1 := by
      simp only [Entry.calls, henter]
    rw [hstart, hcalls]
    rw [← hsame] at hwf ⊢
    rcases hcases with ⟨data, hinvoke, hctx, rfl⟩ | ⟨e, hinvoke, hctx, hr⟩
    · have hfails : ¬ entry.Fails P W cfg s := by
        rintro ⟨module', function', args', s1', e', s2', h, hbad⟩
        cases henter.symm.trans h
        cases hinvoke.symm.trans hbad
      have hmeter := invoke_meter hwf hinvoke
      have hsetting : SameSetting s1.context s2.context :=
        hostRelation_setting.invoke module function args _ _ _ hinvoke
      simp only [hfails, not_false_eq_true, true_and, false_and, or_false, hctx]
      refine accounted_of_meter hwf (hsetting.trans ⟨rfl, rfl, rfl, rfl, rfl, rfl⟩) hmeter ?_
      intro g hg
      obtain rfl := Except.ok.inj hg
      exact add_gasUsed hwf hmeter
    · have hfails : entry.Fails P W cfg s := ⟨module, function, args, s1, e, s2, henter, hinvoke⟩
      simp only [hfails, not_true_eq_false, false_and, false_or, true_and, hctx]
      refine accounted_blank hwf fun g hg => ?_
      rcases hr with rfl | rfl
      · cases hg
      · exact (Except.ok.inj hg).symm

end

/-- A contract that writes to its storage and then goes on as `g`. -/
def writesThen (g : Guest (Int32 × Unit)) : Guest (Int32 × Unit) :=
  .call (.storageWrite 0 1 0 1) (some ⟨65536, fun _ => 0⟩) fun _ _ => g

/-- An execution with a limit of `100000`, in an engine that has the contract in its cache. -/
def calling (g : Guest (Int32 × Unit)) : VmState (Wasmtime.only g).Module Database :=
  ⟨.new (addressOfBytes [1]) (addressOfBytes [1]) (addressOfBytes [9]) 0 7 1000 1 100000,
    Database.empty, (∅ : HashMap Blake3Hash Unit).insert Blake3Hash.zero (), false⟩

def plainCall : Entry := .call Blake3Hash.zero "call" []

theorem wf_calling (g : Guest (Int32 × Unit)) : (calling g).context.gasMeter.Wf :=
  ⟨Nat.zero_le _, show 100000 < 2 ^ 64 by decide⟩

theorem enter_plainCall (g : Guest (Int32 × Unit)) :
    plainCall.enter .small (.only g) .default (calling g) =
      some (.ok ((), "call", []), calling g) := by
  have hcached : cachedModule Blake3Hash.zero (calling g) = some (some (), calling g) :=
    congrArg (fun m => some (m, calling g)) (AList.lookup_insert _)
  have hload : loadModule .small (.only g) .default Blake3Hash.zero (calling g) =
      some (.ok (), calling g) := bind_of_eq hcached
  exact bind_of_eq hload

abbrev returning : Guest (Int32 × Unit) := writesThen (.done (0, ()))

/-- Its call is accounted for. -/
theorem accounted_returning :
    totalCharge (plainCall.calls .small (.only returning) .default (calling returning)) = 5000 ∧
      ∃ r s', plainCall.run .small (.only returning) .default (calling returning) = some (r, s') ∧
        Accounted (plainCall.start .small (.only returning) .default (calling returning)) s'.context
          (totalCharge (plainCall.calls .small (.only returning) .default (calling returning)) + 0)
          r := by
  obtain ⟨⟨r, s'⟩, hrun⟩ := Option.isSome_iff_exists.mp (show (plainCall.run .small
    (.only returning) .default (calling returning)).isSome = true by decide +kernel)
  refine ⟨by decide +kernel, r, s', hrun,
    (gasAccounted_iff (wf_calling returning) hrun 0).mpr (.inl ⟨?_, .inl rfl⟩)⟩
  rintro ⟨module, function, args, s1, e, s2, henter, hinvoke⟩
  cases (enter_plainCall returning).symm.trans henter
  have hok : (((invoke (.only returning) .default () "call" []).run (calling returning)).map
    fun p => p.1.toBool) = some true := by decide +kernel
  rw [hinvoke] at hok
  cases hok

abbrev trapping : Guest (Int32 × Unit) := writesThen (.trap "unreachable")

/-- **A call that traps** after a write reports that no gas was used, and leaves another context. -/
theorem not_accounted_trapping :
    totalCharge (plainCall.calls .small (.only trapping) .default (calling trapping)) = 5000 ∧
      ∃ s', plainCall.run .small (.only trapping) .default (calling trapping) = some (.ok 0, s') ∧
        s'.context.blockNumber = 0 ∧ s'.context.gasMeter = ⟨0, 0⟩ ∧
        ∀ fuel, ¬ Accounted (plainCall.start .small (.only trapping) .default (calling trapping))
          s'.context
          (totalCharge (plainCall.calls .small (.only trapping) .default (calling trapping)) + fuel)
          (.ok 0) := by
  have hresult : (plainCall.run .small (.only trapping) .default (calling trapping)).map
      (fun p => (p.1, p.2.context.blockNumber, p.2.context.gasMeter)) =
        some (.ok 0, 0, ⟨0, 0⟩) := by decide +kernel
  have hstart : (plainCall.start .small (.only trapping) .default
      (calling trapping)).blockNumber = 7 := by decide +kernel
  obtain ⟨⟨r, s'⟩, hrun, hr⟩ := Option.map_eq_some_iff.mp hresult
  obtain ⟨rfl, hr⟩ := Prod.mk.inj hr
  obtain ⟨hnumber, hmeter⟩ := Prod.mk.inj hr
  refine ⟨by decide +kernel, s', hrun, hnumber, hmeter, fun fuel h => ?_⟩
  cases (hnumber.symm.trans h.setting.blockNumber).trans hstart

end Rustchain.Vm
