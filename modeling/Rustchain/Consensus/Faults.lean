import Rustchain.Consensus.Node
import Rustchain.Consensus.Simulation
import Rustchain.Vm.Faults

/-! # Blocks under a storage fault

Let one storage operation fail while a block is applied. Errors of the operations in the transaction
loop are dropped, so such a block is accepted all the same; an error of the final batch is returned,
after the loop has written contract code, contract storage and validators. When is the block then
applied as a whole or not at all? -/

namespace Rustchain.Consensus

open Rustchain.Core Storage Vm Lib.Machine Lib.Maps Lib.Partial Lib.Simulation

/-- The loop state with the content of the store in place of the store. -/
def Loop.plain {M : Type} (l : Loop M FaultyStore) : Loop M Database :=
  ⟨l.storage.content, l.validatorSet, l.moduleCache, l.modifiedAccounts, l.receipts,
    l.totalGasUsed, l.overflow⟩

/-- The chain state with the content of the store in place of the store. -/
def ChainState.plain (s : ChainState FaultyStore) : ChainState Database :=
  ⟨s.head, s.height, s.currentEpoch, s.storage.content⟩

section
variable (M : Type) (log₀ : List (StorageOp × Bool))

def LoopFaulted (l : Loop M FaultyStore) : Prop := l.storage.Hit log₀

/-- There was no fault yet, and the plain loop is in the same state. -/
structure LoopUnfaulted (l : Loop M FaultyStore) (l' : Loop M Database) : Prop where
  clean : l.storage.Clean log₀
  plain : l' = l.plain

end

/-! ### The loop until the fault -/

section
variable {M : Type} {log₀ : List (StorageOp × Bool)}

theorem sim_loopUnfaulted {α : Type} {x : ExecM M FaultyStore α} {y : ExecM M Database α}
    {f : Loop M Database → α} {u : Loop M FaultyStore → Loop M FaultyStore}
    {w : Loop M Database → Loop M Database} (hx : ∀ l, x l = some (f l.plain, u l))
    (hy : ∀ l, y l = some (f l, w l)) (hu : ∀ l, (u l).storage = l.storage)
    (hw : ∀ l, w l.plain = (u l).plain) :
    Agree (LoopFaulted M log₀) (LoopUnfaulted M log₀) x y := by
  refine .of_apply hx hy (fun l h => ?_) fun l l' h => .inr ⟨by rw [h.plain], ?_, ?_⟩
  · rw [LoopFaulted, hu]
    exact h
  · rw [hu]
    exact h.clean
  · rw [h.plain, hw]

theorem sim_writeIgnored {op : StorageOp} (hop : op.InLoop) (f : Database → Database) :
    Agree (LoopFaulted M log₀) (LoopUnfaulted M log₀)
      (Exec.writeIgnored op f) (Exec.writeIgnored op f) := by
  refine .of_apply (fun _ => rfl) (fun _ => rfl) (fun l h => h.perform hop f) fun l l' h => ?_
  refine (h.clean.perform hop f).imp_right fun ⟨_, h2, h3⟩ => ⟨rfl, h3, ?_⟩
  rw [h.plain]
  unfold Loop.plain
  rw [h2]
  rfl

theorem sim_lookupAccount (a : Address) :
    Agree (LoopFaulted M log₀) (LoopUnfaulted M log₀)
      (Exec.lookupAccount a) (Exec.lookupAccount a) := by
  have hop := StorageOp.InLoop.getAccount a
  constructor
  · intro l r t ht hE
    unfold Exec.lookupAccount at ht
    split at ht
    · obtain ⟨-, rfl⟩ := some_pair_inj ht
      exact hE
    · obtain ⟨-, rfl⟩ := some_pair_inj ht
      exact FaultyStore.Hit.read hE hop fun d => d.accounts.lookup a
  · rintro l l' r t ⟨hclean, rfl⟩ ht
    unfold Exec.lookupAccount at ht ⊢
    cases hl : l.modifiedAccounts.lookup a with
    | some x =>
      simp only [hl, Loop.plain] at ht ⊢
      obtain ⟨rfl, rfl⟩ := some_pair_inj ht
      exact .inr ⟨_, _, rfl, rfl, hclean, rfl⟩
    | none =>
      simp only [hl, Loop.plain] at ht ⊢
      obtain ⟨rfl, rfl⟩ := some_pair_inj ht
      refine (hclean.read hop fun d => d.accounts.lookup a).imp_right fun ⟨h1, h2, h3⟩ => ?_
      refine ⟨_, _, rfl, ?_, h3, ?_⟩
      · unfold getAccount
        rw [h1]
        rfl
      · unfold Loop.plain getAccount
        rw [h2]
        rfl

theorem execSim_faults :
    ExecSim (LoopFaulted M log₀) (LoopUnfaulted M log₀) where
  arith x := sim_loopUnfaulted (f := fun _ => x.val) (fun _ => rfl) (fun _ => rfl) (fun _ => rfl)
    fun _ => rfl
  lookup := sim_lookupAccount
  insert _ _ := sim_loopUnfaulted (f := fun _ => ()) (fun _ => rfl) (fun _ => rfl) (fun _ => rfl)
    fun _ => rfl
  validators := sim_loopUnfaulted (f := fun l => l.validatorSet) (fun _ => rfl) (fun _ => rfl)
    (fun _ => rfl) fun _ => rfl
  setValidators _ := sim_loopUnfaulted (f := fun _ => ()) (fun _ => rfl) (fun _ => rfl)
    (fun _ => rfl) fun _ => rfl
  putValidator v := sim_writeIgnored (.putValidator v.address) _
  addGas _ := sim_loopUnfaulted (f := fun _ => ()) (fun _ => rfl) (fun _ => rfl) (fun _ => rfl)
    fun _ => rfl

theorem sim_flush (ord : HashOrders) (c : ExecutionContext) :
    Agree (LoopFaulted M log₀) (LoopUnfaulted M log₀) (Exec.flush ord c) (Exec.flush ord c) := by
  have hstorage : ∀ (k : Address × Bytes) (v : Option Bytes),
      Agree (LoopFaulted M log₀) (LoopUnfaulted M log₀)
        (Exec.applyStorageChange k v) (Exec.applyStorageChange k v) := by
    intro k v
    cases v with
    | some v => exact sim_writeIgnored (.putContractStorage k.1 k.2) _
    | none => exact sim_writeIgnored (.deleteContractStorage k.1 k.2) _
  have hbalance : ∀ (a : Address) (d : ℤ),
      Agree (LoopFaulted M log₀) (LoopUnfaulted M log₀)
        (Exec.applyBalanceChange a d) (Exec.applyBalanceChange a d) := fun a d =>
    (execSim_faults.getOrCreate a).bind fun _ => (execSim_faults.arith _).bind fun _ =>
      (execSim_faults.arith _).bind fun _ => execSim_faults.insert _ _
  exact (Sim.forM fun e _ => hstorage e.1 e.2).bind fun _ => Sim.forM fun e _ => hbalance e.1 e.2

theorem sim_runVm {α : Type} {x : VmM M FaultyStore α} {y : VmM M Database α}
    (h : Agree (Faulted M log₀) (Unfaulted M log₀) x y)
    (c : ExecutionContext) :
    Agree (LoopFaulted M log₀) (LoopUnfaulted M log₀) (Exec.runVm c x) (Exec.runVm c y) := by
  constructor
  · intro l r t ht hE
    unfold Exec.runVm at ht
    cases hs : x ⟨c, l.storage, l.moduleCache, l.overflow⟩ with
    | none =>
      rw [hs] at ht
      cases ht
    | some p =>
      rw [hs] at ht
      obtain ⟨-, rfl⟩ := some_pair_inj ht
      exact h.stable _ _ _ hs hE
  · rintro l l' r t ⟨hclean, rfl⟩ ht
    unfold Exec.runVm at ht ⊢
    cases hs : x ⟨c, l.storage, l.moduleCache, l.overflow⟩ with
    | none =>
      rw [hs] at ht
      cases ht
    | some p =>
      obtain ⟨a, s⟩ := p
      rw [hs] at ht
      obtain ⟨rfl, rfl⟩ := some_pair_inj ht
      refine (h.run _ ⟨c, l.storage.content, l.moduleCache, l.overflow⟩ a s ⟨hclean, rfl⟩
        hs).imp_right ?_
      rintro ⟨_, _, hs', rfl, hclean', rfl⟩
      refine ⟨(a, s.context), _, ?_, rfl, hclean', rfl⟩
      have hplain : y ⟨c, l.plain.storage, l.plain.moduleCache, l.plain.overflow⟩ = _ := hs'
      rw [hplain]
      rfl

end

section
variable {P : Primitives} {W : Wasmtime} {cfg : VmConfig} {log₀ : List (StorageOp × Bool)}

theorem contractSim_faults (ord : HashOrders) (block : Block) (stx : SignedTransaction) :
    ExecSim.ContractSim P W cfg (LoopFaulted W.Module log₀) (LoopUnfaulted W.Module log₀)
      (LoopUnfaulted W.Module log₀) ord ord block block stx := by
  refine ⟨fun _ x => ?_, fun _ x => ?_⟩
  · refine (sim_runVm (sim_deployContract _ _) _).bind fun r => ?_
    obtain ⟨res, c⟩ := r
    cases res with
    | error e => exact .ret _
    | ok r =>
      exact (sim_writeIgnored (.putContractCode r.codeHash) _).bind fun _ =>
        (execSim_faults.insert _ _).bind fun _ => (sim_flush ord c).bind fun _ =>
        (execSim_faults.arith _).bind fun _ => (execSim_faults.refundGas _ _ _).bind fun _ =>
        .ret _
  · refine (execSim_faults.lookup _).bind fun r => ?_
    cases r with
    | none => exact .ret _
    | some acct =>
      dsimp only
      cases acct.codeHash with
      | none => exact .ret _
      | some codeHash =>
        refine (sim_runVm (sim_callContract _ _ _) _).bind fun r => ?_
        obtain ⟨res, c⟩ := r
        cases res with
        | error e => exact .ret _
        | ok r =>
          dsimp only
          split_ifs
          · exact (sim_flush ord c).bind fun _ => (execSim_faults.refundGas _ _ _).bind fun _ =>
              .ret _
          · exact (execSim_faults.refundGas _ _ _).bind fun _ => .ret _

theorem sim_executeTxs (ord : ℕ → HashOrders) (block : Block) :
    ∀ (txs : List SignedTransaction) (i : ℕ),
      Agree (LoopFaulted W.Module log₀) (LoopUnfaulted W.Module log₀)
        (Exec.executeTxs P W cfg ord block i txs) (Exec.executeTxs P W cfg ord block i txs)
  | [], _ => .ret _
  | stx :: txs, i => by
    have hpush : ∀ o, Agree (LoopFaulted W.Module log₀) (LoopUnfaulted W.Module log₀)
        (Exec.pushReceipt (receiptOf P block i stx o))
        (Exec.pushReceipt (receiptOf P block i stx o)) := fun _ =>
      sim_loopUnfaulted (f := fun _ => ()) (fun _ => rfl) (fun _ => rfl) (fun _ => rfl) fun _ => rfl
    unfold Exec.executeTxs
    exact (ExecSim.executeTx execSim_faults.toReadSim execSim_faults (fun _ _ h => h)
      (contractSim_faults (ord i) block stx) hpush).bind fun _ =>
        sim_executeTxs ord block txs (i + 1)

theorem executeTxs_store {ord : ℕ → HashOrders} {cache : HashMap Blake3Hash W.Module}
    {s : ChainState FaultyStore} {block : Block} {l : Loop W.Module FaultyStore}
    (h : Exec.executeTxs P W cfg ord block 0 block.transactions (s.toLoop cache) = some ((), l)) :
    l.storage.Hit s.storage.log ∨ l.storage.Clean s.storage.log ∧
      Exec.executeTxs P W cfg ord block 0 block.transactions (s.plain.toLoop cache) =
        some ((), l.plain) := by
  refine ((sim_executeTxs ord block block.transactions 0).run _ (s.plain.toLoop cache) () l
    ⟨s.storage.clean_self, rfl⟩ h).imp_right ?_
  rintro ⟨_, _, hl, -, hclean, rfl⟩
  exact ⟨hclean, hl⟩

end

/-! ### All or nothing -/

/-- The operation that has failed in a call of `apply_block`. -/
def FaultAt {M : Type} (s : ChainState FaultyStore) (a : Applied M FaultyStore) (op : StorageOp) :
    Prop := (op, false) ∈ a.state.storage.log.drop s.storage.log.length

/-- **All or nothing**: an error leaves chain state and database as they were, and a block that is
accepted has lost no account read and no write. -/
structure AllOrNothing {M : Type} (s : ChainState FaultyStore) (a : Applied M FaultyStore) :
    Prop where
  onError : ∀ e, a.result = .error e → a.state.head = s.head ∧ a.state.height = s.height ∧
    a.state.currentEpoch.validatorSet = s.currentEpoch.validatorSet ∧
    a.state.storage.content = s.storage.content
  onOk : ∀ rs, a.result = .ok rs → ∀ op, FaultAt s a op → ¬ op.Essential

/-- Without a fault, the transactions of the block leave no trace but in the batch. -/
def Silent (P : Primitives) (W : Wasmtime) (cfg : VmConfig) (ord : ℕ → HashOrders)
    (cache : HashMap Blake3Hash W.Module) (s : ChainState Database) (block : Block) : Prop :=
  ∀ l, Exec.executeTxs P W cfg ord block 0 block.transactions (s.toLoop cache) = some ((), l) →
    l.validatorSet = s.currentEpoch.validatorSet ∧
    l.storage.contracts = s.storage.contracts ∧
    l.storage.contractStorage = s.storage.contractStorage ∧
    l.storage.validators = s.storage.validators

section
variable {P : Primitives} {W : Wasmtime} {cfg : VmConfig} {ord : ℕ → HashOrders}
variable {cache : HashMap Blake3Hash W.Module} {s : ChainState FaultyStore} {block : Block}

theorem applyBlock_cases {a : Applied W.Module FaultyStore}
    (h : applyBlock P W cfg ord cache s block = some a) :
    (∃ e, a.result = .error e) ∧ a.state = s ∨
      ∃ l, Exec.executeTxs P W cfg ord block 0 block.transactions (s.toLoop cache) = some ((), l) ∧
        a = commit P W (ord block.transactions.length) s block l := by
  unfold applyBlock at h
  dsimp only at h
  split_ifs at h
  · obtain rfl := Option.some.inj h
    exact .inl ⟨⟨_, rfl⟩, rfl⟩
  · obtain rfl := Option.some.inj h
    exact .inl ⟨⟨_, rfl⟩, rfl⟩
  · obtain ⟨⟨_, l⟩, hl, rfl⟩ := Option.map_eq_some_iff.mp h
    exact .inr ⟨l, hl, rfl⟩

variable {l : Loop W.Module FaultyStore} {o : HashOrders}

/-- The batch fails: the chain state gets what the loop has written. -/
theorem commit_fault (h : l.storage.fault = some l.storage.log.length) :
    commit P W o s block l = ⟨.error (.storage l.storage.error),
      { s.ofLoop l with storage := { l.storage with
        log := l.storage.log ++ [(.writeBatch block.header.number, false)] } },
      l.moduleCache, l.overflow⟩ := by
  unfold commit
  rw [FaultyStore.perform_fault h]

theorem commit_ok (h : l.storage.fault ≠ some l.storage.log.length) :
    (commit P W o s block l).result = .ok l.receipts ∧
      (commit P W o s block l).state.storage.log =
        l.storage.log ++ [(.writeBatch block.header.number, true)] := by
  unfold commit
  rw [FaultyStore.perform_ok h]
  exact ⟨rfl, rfl⟩

theorem content_of_loop
    (hl : Exec.executeTxs P W cfg ord block 0 block.transactions (s.plain.toLoop cache) =
      some ((), l.plain)) :
    (l.validatorSet = s.currentEpoch.validatorSet ∧ l.storage.content = s.storage.content) ↔
      Silent P W cfg ord cache s.plain block := by
  constructor
  · rintro ⟨hvs, hc⟩ l' hl'
    rw [hl] at hl'
    obtain ⟨-, rfl⟩ := some_pair_inj hl'
    exact ⟨hvs, congrArg Database.contracts hc, congrArg Database.contractStorage hc,
      congrArg Database.validators hc⟩
  · intro h
    obtain ⟨hvs, h1, h2, h3⟩ := h _ hl
    refine ⟨hvs, ?_⟩
    have hchain : SameChain s.storage.content l.storage.content := (Exec.executeTxs_effect hl).chain
    unfold SameChain at hchain
    rw [hchain]
    show ({ s.storage.content with
      contracts := l.plain.storage.contracts, contractStorage := l.plain.storage.contractStorage
      validators := l.plain.storage.validators } : Database) = _
    rw [h1, h2, h3]
    rfl

theorem allOrNothing_of_batch_fault
    (hl : Exec.executeTxs P W cfg ord block 0 block.transactions (s.toLoop cache) = some ((), l))
    (hfault : l.storage.fault = some l.storage.log.length) :
    (∀ op, FaultAt s (commit P W o s block l) op ↔ op = .writeBatch block.header.number) ∧
      (AllOrNothing s (commit P W o s block l) ↔ Silent P W cfg ord cache s.plain block) := by
  obtain ⟨⟨new, hlog, hnew⟩, hplain⟩ :=
    (executeTxs_store hl).resolve_left fun ⟨_, _, _, _, n, hn, hf⟩ => by
      rw [hfault] at hf
      exact absurd (Option.some.inj hf) (Nat.ne_of_gt hn)
  rw [commit_fault hfault]
  refine ⟨fun op => ?_, ?_⟩
  · unfold FaultAt
    dsimp only
    rw [hlog, List.append_assoc, List.drop_left, List.mem_append, List.mem_singleton]
    constructor
    · rintro (hop | hop)
      · exact absurd (hnew _ hop).2 (by simp)
      · exact (Prod.mk.inj hop).1
    · rintro rfl
      exact .inr rfl
  · rw [← content_of_loop hplain]
    constructor
    · rintro ⟨herr, -⟩
      exact (herr _ rfl).2.2
    · intro hsame
      exact ⟨fun e _ => ⟨rfl, rfl, hsame⟩, fun rs hrs => by cases hrs⟩

theorem allOrNothing_of_batch_ok
    (hl : Exec.executeTxs P W cfg ord block 0 block.transactions (s.toLoop cache) = some ((), l))
    (hfault : l.storage.fault ≠ some l.storage.log.length) :
    (∀ op, FaultAt s (commit P W o s block l) op → op.InLoop) ∧
      (AllOrNothing s (commit P W o s block l) ↔
        ∀ op, FaultAt s (commit P W o s block l) op → op.ContractRead) := by
  obtain ⟨hok, hlog'⟩ : (commit P W o s block l).result = .ok l.receipts ∧ _ := commit_ok hfault
  obtain ⟨new, hlog, hin⟩ : ∃ new, l.storage.log = s.storage.log ++ new ∧
      ∀ e ∈ new, e.1.InLoop := by
    rcases executeTxs_store hl with ⟨new, hlog, hin, -⟩ | ⟨⟨new, hlog, hnew⟩, -⟩
    · exact ⟨new, hlog, hin⟩
    · exact ⟨new, hlog, fun e he => (hnew e he).1⟩
  have hat : ∀ op, FaultAt s (commit P W o s block l) op → op.InLoop := by
    intro op hop
    unfold FaultAt at hop
    rw [hlog', hlog, List.append_assoc, List.drop_left] at hop
    rcases List.mem_append.mp hop with hop | hop
    · exact hin _ hop
    · cases List.mem_singleton.mp hop
  refine ⟨hat, ?_, ?_⟩
  · rintro ⟨-, hess⟩ op hop
    exact (hat op hop).contractRead_of_not_essential (hess _ hok op hop)
  · intro hop
    refine ⟨fun e he => ?_, fun rs _ op hf => (hop op hf).not_essential⟩
    rw [hok] at he
    cases he

/-- **One storage fault**: the block is applied as a whole or not at all if and only if the
operation that fails is a read of contract code or contract storage, or it is the final batch and
the transactions leave no trace but in the batch. -/
theorem all_or_nothing_iff {a : Applied W.Module FaultyStore}
    (h : applyBlock P W cfg ord cache s block = some a) :
    AllOrNothing s a ↔ ∀ op, FaultAt s a op → op.ContractRead ∨
      op = .writeBatch block.header.number ∧ Silent P W cfg ord cache s.plain block := by
  rcases applyBlock_cases h with ⟨⟨e, he⟩, hs⟩ | ⟨l, hl, rfl⟩
  · -- a block that is refused touches nothing
    have hnone : ∀ op, ¬ FaultAt s a op := fun op hop => by
      unfold FaultAt at hop
      rw [hs, List.drop_length] at hop
      exact absurd hop List.not_mem_nil
    refine ⟨fun _ op hop => absurd hop (hnone op), fun _ => ⟨fun _ _ => ?_, fun _ _ op hop =>
      absurd hop (hnone op)⟩⟩
    rw [hs]
    exact ⟨rfl, rfl, rfl, rfl⟩
  · by_cases hfault : l.storage.fault = some l.storage.log.length
    · obtain ⟨hat, hiff⟩ := allOrNothing_of_batch_fault hl hfault
      rw [hiff]
      constructor
      · exact fun hsilent op hop => .inr ⟨(hat op).mp hop, hsilent⟩
      · intro hop
        rcases hop _ ((hat _).mpr rfl) with hread | ⟨-, hsilent⟩
        · cases hread
        · exact hsilent
    · obtain ⟨hat, hiff⟩ := allOrNothing_of_batch_ok hl hfault
      rw [hiff]
      refine forall₂_congr fun op hop => ⟨.inl, ?_⟩
      rintro (hread | ⟨rfl, -⟩)
      · exact hread
      · cases hat _ hop

end

/-! ### Faults in small blocks -/

namespace Small

def faulty (n : ℕ) : ChainState FaultyStore :=
  ⟨start.head, start.height, start.currentEpoch, ⟨start.storage, some n, .database "fault", []⟩⟩

def applyFaulty (n : ℕ) (stx : SignedTransaction) : Option (Applied Vm.Small.Module FaultyStore) :=
  applyBlock .small .small .default (fun _ => .listed) ∅ (faulty n) (next genesisBlock [stx])

def payment : SignedTransaction := tx 2 0 .transfer (some ((KeyPair.small 3).address .small)) 5 []

def staking : SignedTransaction := tx 2 0 .stake none 50 []

theorem exists_of_applyFaulty (n : ℕ) (stx : SignedTransaction)
    {p : Applied Vm.Small.Module FaultyStore → Prop} [DecidablePred p]
    (h : (applyFaulty n stx).map (fun a => decide (p a)) = some true) :
    ∃ a, applyFaulty n stx = some a ∧ p a := by
  obtain ⟨a, ha, hp⟩ := Option.map_eq_some_iff.mp h
  exact ⟨a, ha, of_decide_eq_true hp⟩

theorem silent_payment : Silent .small .small .default (fun _ => .listed) ∅ start
    (next genesisBlock [payment]) := by
  intro l hl
  have hcheck : (Exec.executeTxs .small .small .default (fun _ => .listed)
      (next genesisBlock [payment]) 0 [payment] (start.toLoop ∅)).map (fun r => decide
        (r.2.validatorSet = start.currentEpoch.validatorSet ∧
          r.2.storage.contracts = start.storage.contracts ∧
          r.2.storage.contractStorage = start.storage.contractStorage ∧
          r.2.storage.validators = start.storage.validators)) = some true := by decide +kernel
  obtain ⟨r, hr, hd⟩ := Option.map_eq_some_iff.mp hcheck
  obtain rfl : r = ((), l) := Option.some.inj (hr.symm.trans hl)
  exact of_decide_eq_true hd

end Small

/-- A transfer whose batch fails is not applied at all. -/
theorem payment_not_applied : ∃ a, Small.applyFaulty 2 Small.payment = some a ∧
    (∃ e, a.result = .error e) ∧ AllOrNothing (Small.faulty 2) a := by
  obtain ⟨a, ha, hres, hlog⟩ := Small.exists_of_applyFaulty 2 Small.payment
    (p := fun a => a.result.toBool = false ∧
      ∀ e ∈ a.state.storage.log, e.2 = false → e.1 = .writeBatch 1) (by decide +kernel)
  refine ⟨a, ha, ?_, (all_or_nothing_iff ha).mpr fun op hop => .inr ⟨?_, Small.silent_payment⟩⟩
  · cases hr : a.result with
    | error e => exact ⟨e, rfl⟩
    | ok rs => simp [hr, Except.toBool] at hres
  · exact hlog _ (List.mem_of_mem_drop hop) rfl

/-- A stake whose batch fails leaves the new validator behind; a payment whose recipient could not
be read is accepted. -/
theorem fault_not_contained :
    (∃ a, Small.applyFaulty 2 Small.staking = some a ∧ (∃ e, a.result = .error e) ∧
      ¬ AllOrNothing (Small.faulty 2) a) ∧
    ∃ a, Small.applyFaulty 1 Small.payment = some a ∧ (∃ rs, a.result = .ok rs) ∧
      ¬ AllOrNothing (Small.faulty 1) a := by
  constructor
  · obtain ⟨a, ha, hres, hlen⟩ := Small.exists_of_applyFaulty 2 Small.staking
      (p := fun a => a.result.toBool = false ∧
        a.state.currentEpoch.validatorSet.validators.length = 2) (by decide +kernel)
    cases hr : a.result with
    | ok rs => simp [hr, Except.toBool] at hres
    | error e =>
      refine ⟨a, ha, ⟨e, hr⟩, fun hall => ?_⟩
      rw [(hall.onError e hr).2.2.1] at hlen
      exact absurd hlen (by decide +kernel)
  · obtain ⟨a, ha, hres, hmem⟩ := Small.exists_of_applyFaulty 1 Small.payment
      (p := fun a => a.result.toBool = true ∧
        (StorageOp.getAccount ((KeyPair.small 3).address .small), false) ∈ a.state.storage.log)
      (by decide +kernel)
    cases hr : a.result with
    | error e => simp [hr, Except.toBool] at hres
    | ok rs => exact ⟨a, ha, ⟨rs, hr⟩, fun hall => hall.onOk rs hr _ hmem (.getAccount _)⟩

end Rustchain.Consensus
