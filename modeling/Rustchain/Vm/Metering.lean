import Rustchain.Vm.Relations
import Mathlib.Algebra.Order.BigOperators.Group.List

/-! # What an execution is charged

Every host call has a charge, and a run of a guest is charged the sum over the host calls it makes,
up to the limit of the meter. A meter grants a sequence of charges exactly if their sum fits, but
for the limit at which its addition saturates. The rest of the context is left as it was set up:
caller, contract, block and limit. -/

namespace Rustchain.Vm

open Rustchain.Core Storage Lib.Machine Lib.Maps Lib.Partial

/-! ### The meter -/

namespace GasMeter

/-- What holds of a meter that was made by `new` for a `u64` and then consumed from. -/
structure Wf (m : GasMeter) : Prop where
  consumed_le : m.consumed ≤ m.limit
  limit_lt : m.limit < 2 ^ 64

theorem wf_new {limit : ℕ} (h : limit < 2 ^ 64) : (new limit).Wf := ⟨Nat.zero_le _, h⟩

/-- The meter after charges of `n` in all. -/
def after (m : GasMeter) (n : ℕ) : GasMeter := ⟨m.limit, min m.limit (m.consumed + n)⟩

theorem consume_snd {m : GasMeter} (h : m.Wf) (n : ℕ) : (m.consume n).2 = m.after n := by
  have hle := h.limit_lt
  unfold consume after
  dsimp only
  split_ifs with hover
  · exact congrArg (GasMeter.mk m.limit) (by omega)
  · exact congrArg (GasMeter.mk m.limit) (by omega)

theorem after_zero {m : GasMeter} (h : m.Wf) : m.after 0 = m := by
  unfold after
  rw [Nat.add_zero, min_eq_right h.consumed_le]

theorem after_after (m : GasMeter) (a b : ℕ) : (m.after a).after b = m.after (a + b) := by
  unfold after
  exact congrArg (GasMeter.mk m.limit) (by dsimp only; omega)

theorem Wf.after {m : GasMeter} (h : m.Wf) (n : ℕ) : (m.after n).Wf :=
  ⟨min_le_left _ _, h.limit_lt⟩

/-! ### Sequences of charges -/

theorem consume_fst_ok_iff {m : GasMeter} (h : m.Wf) (n : ℕ) :
    (m.consume n).1 = .ok () ↔ m.limit = 2 ^ 64 - 1 ∨ m.consumed + n ≤ m.limit := by
  have hle := h.limit_lt
  unfold consume
  dsimp only
  split_ifs with hover
  · exact iff_of_false (by simp) (by omega)
  · exact iff_of_true rfl (by omega)

/-- A call of `consume`: the amount, what it returned and the meter it left. -/
structure Call where
  amount : ℕ
  result : Except VmError Unit
  left : GasMeter

/-- The calls of `consume` for some amounts in turn. -/
def calls : GasMeter → List ℕ → List Call
  | _, [] => []
  | m, n :: ns => ⟨n, (m.consume n).1, (m.consume n).2⟩ :: (m.consume n).2.calls ns

/-- **The law of a meter**, for a limit and a sequence of amounts. -/
structure Law (limit : ℕ) (amounts : List ℕ) : Prop where
  /-- Everything is granted exactly if the exact sum fits. -/
  granted : (∀ c ∈ (new limit).calls amounts, c.result = .ok ()) ↔ amounts.sum ≤ limit
  /-- What is consumed never falls, from the start on. -/
  rising : (0 :: ((new limit).calls amounts).map (·.left.consumed)).Pairwise (· ≤ ·)
  balanced : ∀ c ∈ (new limit).calls amounts, c.left.consumed + c.left.remaining = limit
  /-- After a call that failed, every one for a positive amount fails. -/
  spent : ((new limit).calls amounts).Pairwise fun c d =>
    c.result ≠ .ok () → 0 < d.amount → d.result ≠ .ok ()

variable {m : GasMeter}

theorem calls_ok_iff (h : m.Wf) (amounts : List ℕ) :
    (∀ c ∈ m.calls amounts, c.result = .ok ()) ↔
      m.limit = 2 ^ 64 - 1 ∨ m.consumed + amounts.sum ≤ m.limit := by
  induction amounts generalizing m with
  | nil =>
    have hle := h.consumed_le
    simp [calls, hle]
  | cons n ns ih =>
    rw [calls, List.forall_mem_cons, consume_snd h, ih (h.after n), consume_fst_ok_iff h,
      List.sum_cons]
    dsimp only [after]
    omega

theorem wf_of_mem_calls (h : m.Wf) {amounts : List ℕ} {c : Call} (hc : c ∈ m.calls amounts) :
    c.left.Wf ∧ c.left.limit = m.limit := by
  induction amounts generalizing m with
  | nil => cases hc
  | cons n ns ih =>
    rw [calls, consume_snd h] at hc
    rcases List.mem_cons.mp hc with rfl | hc
    · exact ⟨h.after n, rfl⟩
    · obtain ⟨hwf, hlimit⟩ := ih (h.after n) hc
      exact ⟨hwf, hlimit⟩

theorem consumed_le_after (h : m.Wf) (n : ℕ) : m.consumed ≤ (m.after n).consumed :=
  le_min h.consumed_le (Nat.le_add_right _ _)

theorem calls_rising (h : m.Wf) (amounts : List ℕ) :
    (m.consumed :: (m.calls amounts).map (·.left.consumed)).Pairwise (· ≤ ·) := by
  induction amounts generalizing m with
  | nil => exact List.pairwise_singleton _ _
  | cons n ns ih =>
    rw [calls, consume_snd h, List.map_cons]
    have hrest := ih (h.after n)
    have hstep := consumed_le_after h n
    refine List.pairwise_cons.mpr ⟨fun k hk => ?_, hrest⟩
    rcases List.mem_cons.mp hk with rfl | hk
    · exact hstep
    · exact hstep.trans ((List.pairwise_cons.mp hrest).1 k hk)

theorem refused_of_used_up (h : m.Wf) (hfull : m.consumed = m.limit) (hmax : m.limit ≠ 2 ^ 64 - 1)
    {amounts : List ℕ} {c : Call} (hc : c ∈ m.calls amounts) (hpos : 0 < c.amount) :
    c.result ≠ .ok () := by
  induction amounts generalizing m with
  | nil => cases hc
  | cons n ns ih =>
    rw [calls, consume_snd h] at hc
    rcases List.mem_cons.mp hc with rfl | hc
    · rw [Ne, consume_fst_ok_iff h]
      dsimp only at hpos
      omega
    · refine ih (h.after n) ?_ hmax hc
      dsimp only [after]
      omega

theorem calls_spent (h : m.Wf) (amounts : List ℕ) :
    (m.calls amounts).Pairwise fun c d =>
      c.result ≠ .ok () → 0 < d.amount → d.result ≠ .ok () := by
  induction amounts generalizing m with
  | nil => exact .nil
  | cons n ns ih =>
    rw [calls, consume_snd h]
    refine List.pairwise_cons.mpr ⟨fun d hd hfail hpos => ?_, ih (h.after n)⟩
    -- a refusal leaves the meter at its limit
    rw [Ne, consume_fst_ok_iff h] at hfail
    exact refused_of_used_up (h.after n) (by dsimp only [after]; omega)
      (fun hmax => hfail (.inl hmax)) hd hpos

/-- **The law holds** but for the limit that the addition saturates at: there everything is
granted, whether it fits or not. -/
theorem law_iff {limit : ℕ} (h : limit < 2 ^ 64) (amounts : List ℕ) :
    Law limit amounts ↔ limit ≠ 2 ^ 64 - 1 ∨ amounts.sum ≤ limit := by
  have hgranted := calls_ok_iff (wf_new h) amounts
  simp only [new, Nat.zero_add] at hgranted
  constructor
  · intro hlaw
    by_cases hmax : limit = 2 ^ 64 - 1
    · exact .inr (hlaw.granted.mp (hgranted.mpr (.inl hmax)))
    · exact .inl hmax
  · intro hcase
    refine ⟨hgranted.trans (by omega), calls_rising (wf_new h) amounts, fun c hc => ?_,
      calls_spent (wf_new h) amounts⟩
    obtain ⟨hwf, hlimit⟩ := wf_of_mem_calls (wf_new h) hc
    have hle := hwf.consumed_le
    unfold remaining
    rw [Nat.add_sub_cancel' hle, hlimit]
    rfl

theorem law_small : 100 < 2 ^ 64 ∧ Law 100 [60, 40, 1, 0, 2] ∧ ¬ [60, 40, 1, 0, 2].sum ≤ 100 :=
  ⟨by decide, (law_iff (by decide) _).mpr (.inl (by decide)), by decide⟩

/-- At the largest limit a call is granted that no longer fits. -/
theorem full_limit_grants_more :
    (∀ c ∈ (new (2 ^ 64 - 1)).calls [2 ^ 64 - 1, 1], c.result = .ok ()) ∧
      2 ^ 64 - 1 < [2 ^ 64 - 1, 1].sum ∧ ¬ Law (2 ^ 64 - 1) [2 ^ 64 - 1, 1] := by
  have hmax : 2 ^ 64 - 1 < 2 ^ 64 := by decide
  have hall := (calls_ok_iff (wf_new hmax) [2 ^ 64 - 1, 1]).mpr (.inl rfl)
  exact ⟨hall, by decide, fun hlaw => absurd (hlaw.granted.mp hall) (by decide)⟩

end GasMeter

/-! ### Charges -/

namespace HostCall

/-- What the host functions compute as the cost of a call; `0` for those that charge nothing. -/
def cost : HostCall → Flagged ℕ
  | .storageRead .. => pure gasCosts.storageRead
  | .storageWrite .. => pure gasCosts.storageWrite
  | .transfer .. => pure gasCosts.transfer
  | .emitEvent _ topicsCount _ dataLen => eventCost topicsCount dataLen
  | _ => pure 0

def charge (c : HostCall) : ℕ := c.cost.val

end HostCall

def totalCharge (calls : List HostCall) : ℕ := (calls.map HostCall.charge).sum

section
variable {M σ : Type}

def SameMeter (s s' : VmState M σ) : Prop := s'.context.gasMeter = s.context.gasMeter

/-- The meter has consumed `n`. -/
def Consumes (n : ℕ) (s s' : VmState M σ) : Prop :=
  s'.context.gasMeter = (s.context.gasMeter.consume n).2

theorem sameMeter_modifyContext {f : ExecutionContext → ExecutionContext}
    (hf : ∀ c, (f c).gasMeter = c.gasMeter) : Keeps SameMeter (modifyContext f : VmM M σ Unit) :=
  keeps_of_apply (fun _ => rfl) fun s => hf s.context

theorem sameMeter_readState {α : Type} (f : σ → Except StorageError α × σ) :
    Keeps SameMeter (readState f : VmM M σ _) :=
  keeps_of_apply (fun _ => rfl) fun _ => rfl

theorem after_of_sameMeter {s s' : VmState M σ} (h : SameMeter s s') (hwf : s.context.gasMeter.Wf) :
    s'.context.gasMeter = s.context.gasMeter.after 0 := by
  rw [GasMeter.after_zero hwf]
  exact h

variable [Backend σ]

theorem meteredRelation_meter : MeteredRelation (SameMeter (M := M) (σ := σ)) Consumes where
  refl _ := rfl
  trans _ _ _ h1 h2 := h2.trans h1
  before n s t u h1 h2 := h2.trans (by rw [h1])
  after _ _ _ _ h1 h2 := h2.trans h1
  arith _ := keeps_of_apply (fun _ => rfl) fun _ => rfl
  gas _ := keeps_of_apply (fun _ => rfl) fun _ => rfl
  readAccount _ := sameMeter_readState _
  emit _ := sameMeter_modifyContext fun _ => rfl

theorem consumes_hostStorageRead (kp kl vp : Int32) (mem : Option Memory) :
    Keeps (Consumes gasCosts.storageRead) (hostStorageRead kp kl vp mem : VmM M σ _) :=
  meteredRelation_meter.hostStorageRead (fun _ _ => sameMeter_readState _) kp kl vp mem

theorem consumes_hostStorageWrite (kp kl vp vl : Int32) (mem : Option Memory) :
    Keeps (Consumes gasCosts.storageWrite) (hostStorageWrite kp kl vp vl mem : VmM M σ _) :=
  meteredRelation_meter.hostStorageWrite (fun _ _ _ => sameMeter_modifyContext fun _ => rfl)
    kp kl vp vl mem

theorem runHostCall_meter {c : HostCall} {mem : Option Memory} {s s' : VmState M σ}
    {r : Except Trap (HostValue × Option Memory)} (hwf : s.context.gasMeter.Wf)
    (h : runHostCall c mem s = some (r, s')) :
    s'.context.gasMeter = s.context.gasMeter.after c.charge := by
  have hsame : ∀ {f : ExecutionContext → Except Trap (HostValue × Option Memory)},
      Keeps SameMeter (do return f (← getContext) : VmM M σ _) := fun {f} =>
    meteredRelation_meter.bind meteredRelation_meter.context fun _ => meteredRelation_meter.pure _
  cases c with
  | storageRead kp kl vp =>
    exact (Keeps.map (consumes_hostStorageRead kp kl vp mem) _ _ _ h).trans
      (GasMeter.consume_snd hwf _)
  | storageWrite kp kl vp vl =>
    exact (Keeps.map (consumes_hostStorageWrite kp kl vp vl mem) _ _ _ h).trans
      (GasMeter.consume_snd hwf _)
  | transfer p a =>
    exact (Keeps.map (meteredRelation_meter.hostTransfer (meteredRelation_meter.transfer
      fun _ _ => sameMeter_modifyContext fun _ => rfl) p a mem) _ _ _ h).trans
      (GasMeter.consume_snd hwf _)
  | emitEvent tp tc dp dl =>
    exact (Keeps.map (meteredRelation_meter.hostEmitEvent tc dp dl mem) _ _ _ h).trans
      (GasMeter.consume_snd hwf _)
  | caller p => exact after_of_sameMeter (hsame _ _ _ h) hwf
  | selfAddress p => exact after_of_sameMeter (hsame _ _ _ h) hwf
  | blockNumber => exact after_of_sameMeter (hsame _ _ _ h) hwf
  | blockTimestamp => exact after_of_sameMeter (hsame _ _ _ h) hwf
  | chainId => exact after_of_sameMeter (hsame _ _ _ h) hwf
  | selfBalance =>
    exact after_of_sameMeter (Keeps.map (meteredRelation_meter.hostSelfBalance mem) _ _ _ h) hwf
  | abort p l =>
    exact after_of_sameMeter (meteredRelation_meter.bind (meteredRelation_meter.hostAbort p l mem)
      (fun _ => meteredRelation_meter.pure _) _ _ _ h) hwf

/-! ### Guests -/

def Guest.calls {α : Type} : Guest α → VmState M σ → List HostCall
  | .done _, _ => []
  | .trap _, _ => []
  | .call c mem k, s =>
    c :: match runHostCall c mem s with
      | some (.ok (v, mem'), s') => (k v mem').calls s'
      | _ => []

/-- The host calls of a guest, and those of what comes after it if it returns. -/
def Guest.callsThen {α : Type} (g : Guest α) (rest : α → VmState M σ → List HostCall)
    (s : VmState M σ) : List HostCall :=
  g.calls s ++ match g.run s with
    | some (.ok a, s') => rest a s'
    | _ => []

theorem totalCharge_append (a b : List HostCall) :
    totalCharge (a ++ b) = totalCharge a + totalCharge b := by
  unfold totalCharge
  rw [List.map_append, List.sum_append]

theorem Guest.calls_eq_trace {α : Type} (g : Guest α) :
    ∀ s : VmState M σ, g.calls s = g.trace (fun c _ _ => [c]) s := by
  induction g with
  | done a => exact fun _ => rfl
  | trap msg => exact fun _ => rfl
  | call c mem k ih =>
    intro s
    unfold Guest.calls Guest.trace
    cases runHostCall c mem s with
    | none => rfl
    | some p =>
      obtain ⟨r, s'⟩ := p
      cases r with
      | ok v => exact congrArg (c :: ·) (ih v.1 v.2 s')
      | error t => rfl

theorem Guest.callsThen_eq_traceThen {α : Type} (g : Guest α)
    {rest rest' : α → VmState M σ → List HostCall} (hrest : ∀ a s, rest a s = rest' a s)
    (s : VmState M σ) : g.callsThen rest s = g.traceThen (fun c _ _ => [c]) rest' s := by
  unfold Guest.callsThen Guest.traceThen
  rw [g.calls_eq_trace]
  cases g.run s with
  | none => rfl
  | some p =>
    obtain ⟨r, s'⟩ := p
    cases r with
    | ok a => exact congrArg (g.trace _ s ++ ·) (hrest a s')
    | error t => rfl

theorem traceRelation_meter : TraceRelation (fun c _ (_ : VmState M σ) => [c])
    fun calls s s' => s.context.gasMeter.Wf →
      s'.context.gasMeter = s.context.gasMeter.after (totalCharge calls) where
  refl _ hwf := (GasMeter.after_zero hwf).symm
  append {as bs s t u} h1 h2 hwf := by
    have ht := h1 hwf
    rw [h2 (ht ▸ hwf.after _), ht, GasMeter.after_after, totalCharge_append]
  call {c mem s r s'} h hwf := by
    rw [runHostCall_meter hwf h]
    exact congrArg s.context.gasMeter.after (Nat.add_zero c.charge).symm

end

/-! ### What stays as it was set up -/

/-- **The setting of an execution**: who calls which contract, in which block and with which limit.
-/
structure SameSetting (c c' : ExecutionContext) : Prop where
  caller : c'.caller = c.caller
  contractAddress : c'.contractAddress = c.contractAddress
  blockNumber : c'.blockNumber = c.blockNumber
  blockTimestamp : c'.blockTimestamp = c.blockTimestamp
  chainId : c'.chainId = c.chainId
  limit : c'.gasMeter.limit = c.gasMeter.limit

theorem SameSetting.refl (c : ExecutionContext) : SameSetting c c := ⟨rfl, rfl, rfl, rfl, rfl, rfl⟩

theorem SameSetting.trans {c c' c'' : ExecutionContext} (h1 : SameSetting c c')
    (h2 : SameSetting c' c'') : SameSetting c c'' where
  caller := h2.caller.trans h1.caller
  contractAddress := h2.contractAddress.trans h1.contractAddress
  blockNumber := h2.blockNumber.trans h1.blockNumber
  blockTimestamp := h2.blockTimestamp.trans h1.blockTimestamp
  chainId := h2.chainId.trans h1.chainId
  limit := h2.limit.trans h1.limit

theorem GasMeter.limit_consume (m : GasMeter) (n : ℕ) : (m.consume n).2.limit = m.limit := by
  unfold GasMeter.consume
  dsimp only
  split_ifs <;> rfl

section
variable {M σ : Type} [Backend σ]

omit [Backend σ] in
theorem setting_modifyContext {f : ExecutionContext → ExecutionContext}
    (hf : ∀ c, SameSetting c (f c)) :
    Keeps (fun s s' => SameSetting s.context s'.context) (modifyContext f : VmM M σ Unit) :=
  keeps_of_apply (fun _ => rfl) fun s => hf s.context

omit [Backend σ] in
theorem setting_readState {α : Type} (f : σ → Except StorageError α × σ) :
    Keeps (fun s s' => SameSetting s.context s'.context) (readState f : VmM M σ _) :=
  keeps_of_apply (fun _ => rfl) fun _ => .refl _

theorem accessRelation_setting :
    AccessRelation fun s s' : VmState M σ => SameSetting s.context s'.context where
  refl _ := .refl _
  trans _ _ _ := SameSetting.trans
  arith _ := keeps_of_apply (fun _ => rfl) fun _ => .refl _
  gas n := keeps_of_apply (fun _ => rfl) fun s =>
    ⟨rfl, rfl, rfl, rfl, rfl, s.context.gasMeter.limit_consume n⟩
  readAccount _ := setting_readState _
  readStorage _ _ := setting_readState _
  journal _ _ _ := setting_modifyContext fun _ => ⟨rfl, rfl, rfl, rfl, rfl, rfl⟩
  emit _ := setting_modifyContext fun _ => ⟨rfl, rfl, rfl, rfl, rfl, rfl⟩

theorem hostRelation_setting :
    HostRelation fun s s' : VmState M σ => SameSetting s.context s'.context where
  toAccessRelation := accessRelation_setting
  transfer := accessRelation_setting.transfer fun _ _ =>
    setting_modifyContext fun _ => ⟨rfl, rfl, rfl, rfl, rfl, rfl⟩

end

/-! ### The engine -/

section
variable (W : Wasmtime) (cfg : VmConfig) {σ : Type} [Backend σ]

/-- The host calls of `callPlain`. -/
def callPlainCalls (inst : W.Instance) (functionName : String) (s : VmState W.Module σ) :
    List HostCall :=
  if W.hasFunc inst functionName .unitToI32 = false then []
  else (W.call inst functionName []).calls s

/-- The host calls of `callWithArgs` after the allocation. -/
def afterAllocate (functionName : String) (args : Bytes) (allocated : Int32 × W.Instance)
    (s : VmState W.Module σ) : List HostCall :=
  match (W.memory allocated.2).bind fun mem => mem.write (asUsize allocated.1) args with
  | none => []
  | some mem =>
    let inst := W.setMemory allocated.2 mem
    if W.hasFunc inst functionName .i32I32ToI32 = false then []
    else (W.call inst functionName [allocated.1, Int32.ofNat args.length]).calls s

/-- The host calls of `callWithArgs`. -/
def callWithArgsCalls (inst : W.Instance) (functionName : String) (args : Bytes) :
    VmState W.Module σ → List HostCall :=
  (W.call inst "allocate" [Int32.ofNat args.length]).callsThen (afterAllocate W functionName args)

/-- The host calls of an execution after the instance is there. -/
def afterInstantiate (functionName : String) (args : Bytes) (inst : W.Instance)
    (s : VmState W.Module σ) : List HostCall :=
  if args.isEmpty = false && W.hasFunc inst "allocate" .i32ToI32 then
    callWithArgsCalls W inst functionName args s
  else callPlainCalls W inst functionName s

/-- **The host calls of an execution** of a function of a module, in turn. -/
def invokeCalls (module : W.Module) (functionName : String) (args : Bytes)
    (s : VmState W.Module σ) : List HostCall :=
  (W.instantiate module (if cfg.fuelMetering then some s.context.gasMeter.remaining else none)
    ).callsThen (afterInstantiate W functionName args) s

variable {W cfg} {s s' : VmState W.Module σ}

theorem afterAllocate_eq_trace (functionName : String) (args : Bytes)
    (allocated : Int32 × W.Instance) (s : VmState W.Module σ) :
    afterAllocate W functionName args allocated s =
      allocatedTrace W (fun c _ _ => [c]) functionName args allocated s := by
  unfold afterAllocate allocatedTrace
  cases (W.memory allocated.2).bind fun mem => mem.write (asUsize allocated.1) args with
  | none => rfl
  | some mem =>
    dsimp only [Option.elim_some]
    rw [Guest.calls_eq_trace]

theorem afterInstantiate_eq_trace (functionName : String) (args : Bytes) (inst : W.Instance)
    (s : VmState W.Module σ) :
    afterInstantiate W functionName args inst s =
      instantiatedTrace W (fun c _ _ => [c]) functionName args inst s := by
  unfold afterInstantiate instantiatedTrace
  split_ifs
  · exact Guest.callsThen_eq_traceThen _ (afterAllocate_eq_trace functionName args) s
  · unfold callPlainCalls callPlainTrace
    rw [Guest.calls_eq_trace]

theorem invoke_meter {module : W.Module} {functionName : String} {args : Bytes}
    {r : Except VmError Bytes} (hwf : s.context.gasMeter.Wf)
    (h : (invoke W cfg module functionName args).run s = some (r, s')) :
    s'.context.gasMeter = s.context.gasMeter.after
      (totalCharge (invokeCalls W cfg module functionName args s)) := by
  unfold invokeCalls
  rw [Guest.callsThen_eq_traceThen _ (afterInstantiate_eq_trace functionName args)]
  exact traceRelation_meter.invoke h hwf

end

/-- A runtime whose modules all behave as `g` when they are called. -/
def Wasmtime.only (g : Guest (Int32 × Unit)) : Wasmtime where
  Module := Unit
  Instance := Unit
  validate _ := .ok ()
  compile _ := .ok ()
  instantiate _ _ := .done ()
  hasFunc _ _ t := decide (t = .unitToI32)
  call _ _ _ := g
  memory _ := none
  setMemory inst _ := inst
  describe
    | .guest msg => msg
    | .abort _ => "contract aborted"

end Rustchain.Vm
