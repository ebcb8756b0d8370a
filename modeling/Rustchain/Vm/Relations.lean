import Rustchain.Vm.Traces

/-! # Relations that contract executions keep

An execution is put together from a few accesses to its state. A relation between states that is
reflexive, transitive and kept by these accesses is kept by every host call, and so by every guest
(`HostRelation`) and, with the accesses of the engine added, by a whole deployment or call
(`EngineRelation`). A charge of gas may be told apart from the other accesses (`MeteredRelation`).
-/

namespace Rustchain.Vm

open Rustchain.Core Storage Lib.Machine Lib.Maps Lib.Partial

section
variable {M σ : Type}

theorem keeps_of_apply {α : Type} {R : VmState M σ → VmState M σ → Prop} {x : VmM M σ α}
    {f : VmState M σ → α} {u : VmState M σ → VmState M σ} (hx : ∀ s, x s = some (f s, u s))
    (hR : ∀ s, R s (u s)) : Keeps R x := by
  intro s a s' h
  rw [hx] at h
  obtain ⟨-, rfl⟩ := some_pair_inj h
  exact hR s

theorem keeps_arith_bind {α β : Type} {R T : VmState M σ → VmState M σ → Prop}
    {x : Flagged α} {f : α → VmM M σ β} (hR : ∀ s t u, R s t → T t u → T s u)
    (hx : Keeps R (arith x : VmM M σ α)) (hf : Keeps T (f x.val)) : Keeps T (arith x >>= f) :=
  fun s a s' h => hR _ _ _ (hx s x.val _ rfl) (hf { s with overflow := s.overflow || x.ovf } a s' h)

/-- The gas cost of an event, as `host_emit_event` computes it. -/
def eventCost (topicsCount dataLen : Int32) : Flagged ℕ := do
  let topicCost ← mulU 64 gasCosts.eventPerTopic (asU64 topicsCount)
  let dataCost ← mulU 64 gasCosts.eventPerByte (asU64 dataLen)
  let cost ← addU 64 gasCosts.eventBase topicCost
  addU 64 cost dataCost

variable [Backend σ]

/-- **Two kinds of steps**: a charge of `n` relates states by `G n`, and the accesses that leave
contract storage and the deltas alone relate them by `R`. -/
structure MeteredRelation (R : VmState M σ → VmState M σ → Prop)
    (G : ℕ → VmState M σ → VmState M σ → Prop) : Prop where
  refl : ∀ s, R s s
  trans : ∀ s t u, R s t → R t u → R s u
  before : ∀ n s t u, R s t → G n t u → G n s u
  after : ∀ n s t u, G n s t → R t u → G n s u
  arith : ∀ {α : Type} (x : Flagged α), Keeps R (arith x)
  gas : ∀ n, Keeps (G n) (consumeGas n)
  readAccount : ∀ a, Keeps R (readState (getAccount a))
  emit : ∀ data, Keeps R
    (modifyContext fun c => { c with logs := c.logs ++ [⟨c.contractAddress, [], data⟩] })

namespace MeteredRelation

variable {R : VmState M σ → VmState M σ → Prop} {G : ℕ → VmState M σ → VmState M σ → Prop}
  (h : MeteredRelation R G)

include h

theorem pure {α : Type} (a : α) : Keeps R (Pure.pure a : VmM M σ α) := Keeps.pure h.refl a

theorem bind {α β : Type} {x : VmM M σ α} {f : α → VmM M σ β} (hx : Keeps R x)
    (hf : ∀ a, Keeps R (f a)) : Keeps R (x >>= f) := Keeps.bind h.trans hx hf

theorem charge {α : Type} (n : ℕ) {f : Except VmError Unit → VmM M σ α}
    (hf : ∀ r, Keeps R (f r)) : Keeps (G n) (consumeGas n >>= f) :=
  Keeps.seq (h.after n) (h.gas n) hf

theorem context : Keeps R (getContext : VmM M σ ExecutionContext) :=
  keeps_of_apply (fun _ => rfl) h.refl

theorem allocBuffer (len : Int32) : Keeps R (allocBuffer len : VmM M σ ℕ) := by
  intro s a s' he
  unfold Vm.allocBuffer at he
  split_ifs at he
  obtain ⟨-, rfl⟩ := some_pair_inj he
  exact h.refl _

theorem balance (a : Address) : Keeps R (getBalance a : VmM M σ (Except VmError ℕ)) := by
  refine h.bind (h.readAccount a) fun r => ?_
  cases r with
  | error e => exact h.pure _
  | ok account =>
    exact h.bind h.context fun _ => h.bind (h.arith _) fun _ => h.bind (h.arith _) fun _ => h.pure _

theorem storage (hread : ∀ a k, Keeps R (readState (getContractStorage a k) : VmM M σ _))
    (a : Address) (k : Bytes) :
    Keeps R (storageRead a k : VmM M σ (Except VmError (Option Bytes))) := by
  refine h.bind h.context fun ctx => ?_
  cases ctx.storageChanges.lookup (a, k) with
  | some v => exact h.pure _
  | none => exact hread a k

theorem transfer (hdelta : ∀ a d, Keeps R (setDelta a d)) (target : Address) (amount : ℕ) :
    Keeps R (getContext >>= fun ctx => transfer ctx.contractAddress target amount) := by
  refine h.bind h.context fun ctx => h.bind (h.balance _) fun r => ?_
  cases r with
  | error e => exact h.pure _
  | ok b =>
    dsimp only
    split_ifs
    · exact h.pure _
    · exact h.bind (h.arith _) fun _ => h.bind h.context fun _ => h.bind (h.arith _) fun _ =>
        h.bind (hdelta _ _) fun _ => h.bind h.context fun _ => h.bind (h.arith _) fun _ =>
        h.bind (hdelta _ _) fun _ => h.pure _

/-! ### Host functions -/

theorem hostStorageRead (hread : ∀ a k, Keeps R (readState (getContractStorage a k) : VmM M σ _))
    (kp kl vp : Int32) (mem : Option Memory) :
    Keeps (G gasCosts.storageRead) (hostStorageRead kp kl vp mem : VmM M σ _) := by
  refine h.charge _ fun r => ?_
  cases r with
  | error e => exact h.pure _
  | ok _ =>
    cases mem with
    | none => exact h.pure _
    | some m =>
      refine h.bind (h.allocBuffer kl) fun len => ?_
      split
      · exact h.pure _
      · refine h.bind h.context fun ctx => h.bind (h.storage hread _ _) fun r => ?_
        split
        · split
          · exact h.pure _
          · exact h.pure _
        · exact h.pure _

theorem hostStorageWrite (hjournal : ∀ a k v, Keeps R (storageWrite a k v : VmM M σ _))
    (kp kl vp vl : Int32) (mem : Option Memory) :
    Keeps (G gasCosts.storageWrite) (hostStorageWrite kp kl vp vl mem : VmM M σ _) := by
  refine h.charge _ fun _ => ?_
  cases mem with
  | none => exact h.pure _
  | some m =>
    refine h.bind (h.allocBuffer kl) fun _ => h.bind (h.allocBuffer vl) fun _ => ?_
    split
    · exact h.bind h.context fun _ => h.bind (hjournal _ _ _) fun _ => h.pure _
    · exact h.pure _

theorem hostSelfBalance (mem : Option Memory) : Keeps R (hostSelfBalance mem : VmM M σ _) := by
  refine h.bind h.context fun _ => h.bind (h.balance _) fun r => ?_
  cases r with
  | ok b => exact h.pure _
  | error e => exact h.pure _

theorem hostEmitEvent (tc dp dl : Int32) (mem : Option Memory) :
    Keeps (G (eventCost tc dl).val) (hostEmitEvent tc dp dl mem : VmM M σ _) := by
  have hcost {α β : Type} {x : Flagged α} {f : α → VmM M σ β}
      (hf : Keeps (G (eventCost tc dl).val) (f x.val)) :
      Keeps (G (eventCost tc dl).val) (Vm.arith x >>= f) :=
    keeps_arith_bind (h.before _) (h.arith x) hf
  refine hcost (hcost (hcost (hcost (h.charge _ fun r => ?_))))
  cases r with
  | error e => exact h.pure _
  | ok _ =>
    cases mem with
    | none => exact h.pure _
    | some m =>
      refine h.bind (h.allocBuffer dl) fun _ => ?_
      split
      · exact h.pure _
      · exact h.bind (h.emit _) fun _ => h.pure _

theorem hostAbort (p l : Int32) (mem : Option Memory) :
    Keeps R (hostAbort p l mem : VmM M σ (Option Bytes)) := by
  unfold Vm.hostAbort
  split_ifs
  · cases mem with
    | none => exact h.pure _
    | some m => exact h.bind (h.allocBuffer l) fun _ => h.pure _
  · exact h.pure _

theorem hostTransfer (htransfer : ∀ target amount,
      Keeps R (getContext >>= fun ctx => Vm.transfer ctx.contractAddress target amount))
    (p : Int32) (amount : Int64) (mem : Option Memory) :
    Keeps (G gasCosts.transfer) (hostTransfer p amount mem : VmM M σ _) := by
  refine h.charge _ fun r => ?_
  cases r with
  | error e => exact h.pure _
  | ok _ =>
    cases mem with
    | none => exact h.pure _
    | some m =>
      dsimp only
      split
      · exact h.pure _
      · rename_i toBytes _
        rw [← bind_assoc]
        refine h.bind (htransfer (addressOfBytes toBytes) (asU128 amount)) fun r => ?_
        cases r with
        | ok _ => exact h.pure _
        | error e => exact h.pure _

end MeteredRelation

/-- The accesses that leave contract storage and the deltas alone. -/
structure QuietRelation (R : VmState M σ → VmState M σ → Prop) : Prop where
  refl : ∀ s, R s s
  trans : ∀ s t u, R s t → R t u → R s u
  arith : ∀ {α : Type} (x : Flagged α), Keeps R (arith x)
  gas : ∀ n, Keeps R (consumeGas n)
  readAccount : ∀ a, Keeps R (readState (getAccount a))
  emit : ∀ data, Keeps R
    (modifyContext fun c => { c with logs := c.logs ++ [⟨c.contractAddress, [], data⟩] })

namespace QuietRelation

variable {R : VmState M σ → VmState M σ → Prop} (h : QuietRelation R)

include h

theorem metered : MeteredRelation R fun _ => R :=
  ⟨h.refl, h.trans, fun _ => h.trans, fun _ => h.trans, h.arith, h.gas, h.readAccount, h.emit⟩

theorem runHostCall (htransfer : ∀ target amount,
      Keeps R (getContext >>= fun ctx => Vm.transfer ctx.contractAddress target amount))
    (c : HostCall) (mem : Option Memory) (hread : ∀ kp kl vp, c ≠ .storageRead kp kl vp)
    (hwrite : ∀ kp kl vp vl, c ≠ .storageWrite kp kl vp vl) :
    Keeps R (runHostCall c mem : VmM M σ _) := by
  cases c with
  | storageRead kp kl vp => exact absurd rfl (hread kp kl vp)
  | storageWrite kp kl vp vl => exact absurd rfl (hwrite kp kl vp vl)
  | caller p => exact h.metered.bind h.metered.context fun _ => h.metered.pure _
  | selfAddress p => exact h.metered.bind h.metered.context fun _ => h.metered.pure _
  | blockNumber => exact h.metered.bind h.metered.context fun _ => h.metered.pure _
  | blockTimestamp => exact h.metered.bind h.metered.context fun _ => h.metered.pure _
  | chainId => exact h.metered.bind h.metered.context fun _ => h.metered.pure _
  | selfBalance => exact Keeps.map (h.metered.hostSelfBalance mem)
  | transfer p a => exact Keeps.map (h.metered.hostTransfer htransfer p a mem)
  | emitEvent tp tc dp dl => exact Keeps.map (h.metered.hostEmitEvent tc dp dl mem)
  | abort p l => exact h.metered.bind (h.metered.hostAbort p l mem) fun _ => h.metered.pure _

end QuietRelation

/-- The single accesses to the state that host functions make. -/
structure AccessRelation (R : VmState M σ → VmState M σ → Prop) : Prop where
  refl : ∀ s, R s s
  trans : ∀ s t u, R s t → R t u → R s u
  arith : ∀ {α : Type} (x : Flagged α), Keeps R (arith x)
  gas : ∀ n, Keeps R (consumeGas n)
  readAccount : ∀ a, Keeps R (readState (getAccount a))
  readStorage : ∀ a k, Keeps R (readState (getContractStorage a k))
  journal : ∀ a k v, Keeps R (storageWrite a k v)
  emit : ∀ data, Keeps R
    (modifyContext fun c => { c with logs := c.logs ++ [⟨c.contractAddress, [], data⟩] })

namespace AccessRelation

variable {R : VmState M σ → VmState M σ → Prop} (h : AccessRelation R)

include h

theorem quiet : QuietRelation R := ⟨h.refl, h.trans, h.arith, h.gas, h.readAccount, h.emit⟩

theorem pure {α : Type} (a : α) : Keeps R (Pure.pure a : VmM M σ α) := h.quiet.metered.pure a

theorem bind {α β : Type} {x : VmM M σ α} {f : α → VmM M σ β} (hx : Keeps R x)
    (hf : ∀ a, Keeps R (f a)) : Keeps R (x >>= f) := h.quiet.metered.bind hx hf

theorem context : Keeps R (getContext : VmM M σ ExecutionContext) := h.quiet.metered.context

theorem transfer (hdelta : ∀ a d, Keeps R (setDelta a d)) (target : Address) (amount : ℕ) :
    Keeps R (getContext >>= fun ctx => transfer ctx.contractAddress target amount) :=
  h.quiet.metered.transfer hdelta target amount

end AccessRelation

/-- The accesses to the state that host functions make, a transfer being one of them. -/
structure HostRelation (R : VmState M σ → VmState M σ → Prop) : Prop extends AccessRelation R where
  transfer : ∀ target amount,
    Keeps R (getContext >>= fun ctx => transfer ctx.contractAddress target amount)

namespace HostRelation

variable {R : VmState M σ → VmState M σ → Prop} (h : HostRelation R)

include h

theorem runHostCall (c : HostCall) (mem : Option Memory) :
    Keeps R (runHostCall c mem : VmM M σ _) := by
  by_cases hread : ∃ kp kl vp, c = .storageRead kp kl vp
  · obtain ⟨kp, kl, vp, rfl⟩ := hread
    exact Keeps.map (h.quiet.metered.hostStorageRead h.readStorage kp kl vp mem)
  by_cases hwrite : ∃ kp kl vp vl, c = .storageWrite kp kl vp vl
  · obtain ⟨kp, kl, vp, vl, rfl⟩ := hwrite
    exact Keeps.map (h.quiet.metered.hostStorageWrite h.journal kp kl vp vl mem)
  · exact h.quiet.runHostCall h.transfer c mem (fun kp kl vp hc => hread ⟨kp, kl, vp, hc⟩)
      fun kp kl vp vl hc => hwrite ⟨kp, kl, vp, vl, hc⟩

theorem trace : TraceRelation (fun _ _ (_ : VmState M σ) => ([] : List Unit)) fun _ => R where
  refl := h.refl
  append := h.trans _ _ _
  call hrun := h.runHostCall _ _ _ _ _ hrun

end HostRelation

end

/-! ### The engine -/

section
variable {P : Primitives} {W : Wasmtime} {cfg : VmConfig} {σ : Type} [Backend σ]

theorem MeteredRelation.loadModule {R : VmState W.Module σ → VmState W.Module σ → Prop}
    {G : ℕ → VmState W.Module σ → VmState W.Module σ → Prop} (h : MeteredRelation R G)
    (hcompile : ∀ code, Keeps R (compileModule P W cfg code))
    (hcode : ∀ c, Keeps R (readState (getContractCode c))) (c : Blake3Hash) :
    Keeps R (loadModule P W cfg c : VmM W.Module σ (Except VmError W.Module)) := by
  refine h.bind (keeps_of_apply (fun _ => rfl) h.refl) fun r => ?_
  split
  · exact h.pure _
  · refine h.bind (hcode c) fun r => ?_
    split
    · exact h.pure _
    · exact h.pure _
    · refine h.bind (hcompile _) fun r => ?_
      split
      · exact h.pure _
      · exact h.pure _

namespace HostRelation

variable {R : VmState W.Module σ → VmState W.Module σ → Prop} (h : HostRelation R)

include h

theorem invoke (module : W.Module) (name : String) (args : Bytes) :
    Keeps R (invoke W cfg module name args : ExceptT VmError (VmM W.Module σ) Bytes).run :=
  fun _ _ _ hrun => h.trace.invoke hrun

end HostRelation

/-- The accesses to the state that the engine makes besides those of the host functions. -/
structure EngineRelation (P : Primitives) (W : Wasmtime) (cfg : VmConfig)
    (R : VmState W.Module σ → VmState W.Module σ → Prop) : Prop extends HostRelation R where
  blank : Keeps R (modifyContext fun _ => ExecutionContext.blank)
  address : ∀ a, Keeps R (modifyContext fun c => { c with contractAddress := a })
  clearLogs : Keeps R (modifyContext fun c => { c with logs := [] })
  compile : ∀ code, Keeps R (compileModule P W cfg code)
  readCode : ∀ c, Keeps R (readState (getContractCode c))

namespace EngineRelation

variable {R : VmState W.Module σ → VmState W.Module σ → Prop} (h : EngineRelation P W cfg R)

include h

theorem executeFunction (module : W.Module) (name : String) (args : Bytes) :
    Keeps R (executeFunction W cfg module name args : VmM W.Module σ (Except VmError Bytes)) := by
  refine h.bind (h.invoke module name args) fun r => ?_
  cases r with
  | ok data => exact h.pure _
  | error e => exact h.bind h.blank fun _ => h.pure _

theorem takeLogs : Keeps R (takeLogs : VmM W.Module σ (List EventLog)) :=
  h.bind h.context fun _ => h.bind h.clearLogs fun _ => h.pure _

theorem gasSince (g : ℕ) : Keeps R (gasSince g : VmM W.Module σ ℕ) :=
  h.bind h.context fun _ => h.arith _

theorem deployContract (code args : Bytes) :
    Keeps R (deployContract P W cfg code args : VmM W.Module σ (Except VmError DeployResult)) := by
  refine h.bind (h.compile code) fun r => ?_
  split
  · exact h.pure _
  · refine h.bind h.context fun ctx => h.bind (h.address _) fun _ =>
      h.bind (h.executeFunction _ _ _) fun r => ?_
    split
    · exact h.bind (h.gasSince _) fun _ => h.bind h.takeLogs fun _ => h.pure _
    · exact h.bind (h.gasSince _) fun _ => h.bind h.takeLogs fun _ => h.pure _
    · exact h.pure _

theorem loadModule (c : Blake3Hash) :
    Keeps R (loadModule P W cfg c : VmM W.Module σ (Except VmError W.Module)) :=
  h.quiet.metered.loadModule h.compile h.readCode c

theorem callContract (c : Blake3Hash) (name : String) (args : Bytes) :
    Keeps R (callContract P W cfg c name args : VmM W.Module σ (Except VmError CallResult)) := by
  refine h.bind (h.loadModule c) fun r => ?_
  split
  · exact h.pure _
  · refine h.bind h.context fun ctx => h.bind (h.executeFunction _ _ _) fun r => ?_
    split
    · exact h.bind (h.gasSince _) fun _ => h.bind h.takeLogs fun _ => h.pure _
    · exact h.pure _
    · exact h.bind (h.gasSince _) fun _ => h.pure _

end EngineRelation

end

/-! ### Compilation and addresses -/

section
variable {P : Primitives} {W : Wasmtime} {cfg : VmConfig} {σ : Type}

theorem compileModule_spec {code : Bytes} {s s' : VmState W.Module σ}
    {r : Except VmError (W.Module × Blake3Hash)}
    (h : compileModule P W cfg code s = some (r, s')) :
    ∃ cache, s' = { s with moduleCache := cache } := by
  unfold compileModule at h
  split at h
  · obtain ⟨-, rfl⟩ := some_pair_inj h
    exact ⟨_, rfl⟩
  · split at h
    · obtain ⟨-, rfl⟩ := some_pair_inj h
      exact ⟨_, rfl⟩
    · obtain ⟨-, rfl⟩ := some_pair_inj h
      exact ⟨_, rfl⟩

theorem compileModule_hash {code : Bytes} {s s' : VmState W.Module σ} {p : W.Module × Blake3Hash}
    (h : compileModule P W cfg code s = some (.ok p, s')) : p.2 = P.blake3 code := by
  unfold compileModule at h
  split at h
  · obtain ⟨h, -⟩ := some_pair_inj h
    exact (Except.ok.inj h) ▸ rfl
  · split at h
    · cases h
    · obtain ⟨h, -⟩ := some_pair_inj h
      exact (Except.ok.inj h) ▸ rfl

variable [Backend σ]

theorem deployContract_result {code args : Bytes} {s s' : VmState W.Module σ} {r : DeployResult}
    (h : deployContract P W cfg code args s = some (.ok r, s')) :
    r.contractAddress = deployAddress P s.context.caller s.context.blockNumber ∧
      r.codeHash = P.blake3 code := by
  unfold deployContract at h
  obtain ⟨res, s1, h1, h⟩ := bind_eq_some.mp h
  obtain ⟨cache, rfl⟩ := compileModule_spec h1
  cases res with
  | error e => cases h
  | ok p =>
    have hp := compileModule_hash h1
    obtain ⟨ctx, s2, h2, h⟩ := bind_eq_some.mp h
    obtain ⟨rfl, rfl⟩ := some_pair_inj h2
    obtain ⟨_, s3, h3, h⟩ := bind_eq_some.mp h
    obtain ⟨res, s4, h4, h⟩ := bind_eq_some.mp h
    have hfin : ∀ {g : ℕ}, (do
        let gasUsed ← gasSince g
        let logs ← takeLogs
        return .ok ⟨deployAddress P s.context.caller s.context.blockNumber, p.2, gasUsed, logs⟩ :
          VmM W.Module σ (Except VmError DeployResult)) s4 = some (.ok r, s') →
        r.contractAddress = deployAddress P s.context.caller s.context.blockNumber ∧
          r.codeHash = P.blake3 code := by
      intro g hg
      obtain ⟨_, s5, h5, hg⟩ := bind_eq_some.mp hg
      obtain ⟨_, s6, h6, hg⟩ := bind_eq_some.mp hg
      obtain ⟨he, -⟩ := some_pair_inj hg
      obtain rfl := Except.ok.inj he
      exact ⟨rfl, hp⟩
    split at h
    · exact hfin h
    · exact hfin h
    · cases h

end

/-! ### Executions do not write the database -/

section
variable {P : Primitives} {W : Wasmtime} {cfg : VmConfig}

/-- The database is as before, and an overflow is not forgotten. -/
def Frame {M : Type} (s s' : VmState M Database) : Prop :=
  s'.storage = s.storage ∧ (s'.overflow = false → s.overflow = false)

theorem Frame.refl {M : Type} (s : VmState M Database) : Frame s s := ⟨rfl, id⟩

theorem Frame.trans {M : Type} {s t u : VmState M Database} (h1 : Frame s t) (h2 : Frame t u) :
    Frame s u := ⟨h2.1.trans h1.1, fun h => h1.2 (h2.2 h)⟩

theorem frame_arith {M α : Type} (x : Flagged α) : Keeps Frame (arith x : VmM M Database α) :=
  keeps_of_apply (fun _ => rfl) fun _ => ⟨rfl, fun h => (Bool.or_eq_false_iff.mp h).1⟩

theorem frame_modifyContext {M : Type} (f : ExecutionContext → ExecutionContext) :
    Keeps Frame (modifyContext f : VmM M Database Unit) :=
  keeps_of_apply (fun _ => rfl) fun _ => ⟨rfl, id⟩

theorem frame_readState {M α : Type} (op : StorageOp) (f : Database → α) :
    Keeps Frame (readState (read op f) : VmM M Database (Except VmError α)) :=
  keeps_of_apply (fun _ => rfl) fun _ => ⟨rfl, id⟩

theorem accessRelation_frame {M : Type} : AccessRelation (Frame (M := M)) where
  refl := Frame.refl
  trans _ _ _ := Frame.trans
  arith := frame_arith
  gas _ := keeps_of_apply (fun _ => rfl) fun _ => ⟨rfl, id⟩
  readAccount _ := frame_readState _ _
  readStorage _ _ := frame_readState _ _
  journal _ _ _ := frame_modifyContext _
  emit _ := frame_modifyContext _

theorem engineRelation_frame : EngineRelation P W cfg Frame where
  toAccessRelation := accessRelation_frame
  transfer := accessRelation_frame.transfer fun _ _ => frame_modifyContext _
  blank := frame_modifyContext _
  address _ := frame_modifyContext _
  clearLogs := frame_modifyContext _
  compile code := by
    intro s a s' h
    obtain ⟨cache, rfl⟩ := compileModule_spec h
    exact ⟨rfl, id⟩
  readCode _ := frame_readState _ _

end

end Rustchain.Vm
