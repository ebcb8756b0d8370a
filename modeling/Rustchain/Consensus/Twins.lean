import Rustchain.Consensus.Contracts
import Rustchain.Consensus.Simulation
import Rustchain.Vm.Twins

/-! # One list of transactions on two nodes

Two runs of the transaction loop start with the same accounts, the same contracts and the same
validators. They may be in different blocks, with different module caches, with different orders of
iteration, and what the one has in its overlay the other may have in its database. `LoopTwin` is the
relation that the two runs keep. -/

namespace Rustchain.Consensus

open Rustchain.Core Storage Vm Lib.Machine Lib.Maps Lib.Partial Lib.Simulation

/-- Blocks that a contract cannot tell apart. -/
def SameBlock (block block' : Block) : Prop :=
  block.header.number = block'.header.number ∧ block.header.timestamp = block'.header.timestamp ∧
    block.header.chainId = block'.header.chainId

/-- A relation between lists of receipts. -/
abbrev ReceiptRel := List TransactionReceipt → List TransactionReceipt → Prop

section
variable (P : Primitives) (W : Wasmtime) (cfg : VmConfig) (codes : Set Bytes) (Q : ReceiptRel)
variable (d d' : Database)

/-- **The relation between the two loops**, which were entered with the databases `d` and `d'`. -/
structure LoopTwin (l l' : Loop W.Module Database) : Prop where
  accounts : l.accounts = l'.accounts
  validatorSet : l.validatorSet = l'.validatorSet
  contracts : l.storage.contracts = l'.storage.contracts
  contractStorage : l.storage.contractStorage = l'.storage.contractStorage
  validators : l.storage.validators = l'.storage.validators
  left : SameChain d l.storage
  right : SameChain d' l'.storage
  cacheLeft : Coherent P W cfg codes l.moduleCache
  cacheRight : Coherent P W cfg codes l'.moduleCache
  receipts : Q l.receipts l'.receipts

/-- What holds between two transactions besides: the code of every contract is stored. -/
structure CodedTwin (l l' : Loop W.Module Database) : Prop
    extends LoopTwin P W cfg codes Q d d' l l' where
  coded : Coded P codes l.storage l.accounts

/-- What a contract transaction must be like to run the same on both sides. A call needs a balance
of the contract on which the databases agree; a deployment needs the same block number and the same
balances, or code that does not compile. -/
structure Agrees (block block' : Block) (stx : SignedTransaction) : Prop where
  deployed : stx.transaction.txType = .contractDeploy → stx.transaction.data ∈ codes
  deploy : stx.transaction.txType = .contractDeploy →
    (block.header.number = block'.header.number ∧ ∀ a, storedBalance d a = storedBalance d' a) ∨
      ∃ e, compileFresh W cfg stx.transaction.data = .error e
  call : stx.transaction.txType = .contractCall →
    storedBalance d (stx.transaction.toAddr.getD Address.zero) =
      storedBalance d' (stx.transaction.toAddr.getD Address.zero)

end

section
variable {P : Primitives} {W : Wasmtime} {cfg : VmConfig} {codes : Set Bytes} {Q : ReceiptRel}
variable {d d' : Database}

theorem storedBalance_of_accounts {t t' : Database} (h : t.accounts = t'.accounts) (a : Address) :
    storedBalance t a = storedBalance t' a := by
  unfold storedBalance
  rw [h]

variable {l l' : Loop W.Module Database}

theorem LoopTwin.sameReads (h : LoopTwin P W cfg codes Q d d' l l') {A : Address → Prop}
    (hA : ∀ a, A a → storedBalance d a = storedBalance d' a) :
    SameReads A l.storage l'.storage := by
  refine ⟨h.contracts, h.contractStorage, fun a ha => ?_⟩
  rw [storedBalance_of_accounts h.left.accounts, storedBalance_of_accounts h.right.accounts]
  exact hA a ha

/-! ### Accesses -/

theorem accounts_of_storage {M : Type} (l : Loop M Database) {t : Database}
    (h : t.accounts = l.storage.accounts) : ({ l with storage := t } : Loop M Database).accounts =
      l.accounts := by
  show l.modifiedAccounts.toFinmap ∪ t.accounts = l.modifiedAccounts.toFinmap ∪ _
  rw [h]

theorem sim_loop {M α : Type} {R R' : Loop M Database → Loop M Database → Prop}
    {x y : ExecM M Database α} {f g : Loop M Database → α}
    {u v : Loop M Database → Loop M Database} (hx : ∀ l, x l = some (f l, u l))
    (hy : ∀ l, y l = some (g l, v l)) (h : ∀ l l', R l l' → f l = g l' ∧ R' (u l) (v l')) :
    Sim Never R R' Eq x y :=
  .of_apply hx hy (fun _ h => h) fun l l' hR => .inr (h l l' hR)

theorem LoopTwin.withOverflow (h : LoopTwin P W cfg codes Q d d' l l') (o o' : Bool) (g g' : ℕ) :
    LoopTwin P W cfg codes Q d d' { l with overflow := o, totalGasUsed := g }
      { l' with overflow := o', totalGasUsed := g' } :=
  ⟨h.accounts, h.validatorSet, h.contracts, h.contractStorage, h.validators, h.left, h.right,
    h.cacheLeft, h.cacheRight, h.receipts⟩

theorem LoopTwin.put (h : LoopTwin P W cfg codes Q d d' l l') (a : Address) (x : Account) :
    LoopTwin P W cfg codes Q d d' (l.put a x) (l'.put a x) :=
  ⟨by rw [Loop.accounts_put, Loop.accounts_put, h.accounts], h.validatorSet, h.contracts,
    h.contractStorage, h.validators, h.left, h.right, h.cacheLeft, h.cacheRight, h.receipts⟩

theorem LoopTwin.write (h : LoopTwin P W cfg codes Q d d' l l') {f : Database → Database}
    (hchain : ∀ t, SameChain t (f t))
    (hsame : (f l.storage).contracts = (f l'.storage).contracts ∧
      (f l.storage).contractStorage = (f l'.storage).contractStorage ∧
      (f l.storage).validators = (f l'.storage).validators) :
    LoopTwin P W cfg codes Q d d' { l with storage := f l.storage }
      { l' with storage := f l'.storage } :=
  ⟨by rw [accounts_of_storage l (hchain _).accounts, accounts_of_storage l' (hchain _).accounts,
      h.accounts], h.validatorSet, hsame.1, hsame.2.1, hsame.2.2, h.left.trans (hchain _),
    h.right.trans (hchain _), h.cacheLeft, h.cacheRight, h.receipts⟩

theorem readSim_coded : ReadSim Never (CodedTwin P W cfg codes Q d d') where
  arith x := sim_loop (fun _ => rfl) (fun _ => rfl) fun l l' h =>
    ⟨rfl, h.withOverflow _ _ l.totalGasUsed l'.totalGasUsed, h.coded⟩
  lookup a := sim_loop (Exec.lookupAccount_apply a) (Exec.lookupAccount_apply a)
    fun l l' h => ⟨by rw [h.accounts], h⟩

theorem execSim_twin : ExecSim Never (LoopTwin P W cfg codes Q d d') where
  arith x := sim_loop (fun _ => rfl) (fun _ => rfl) fun l l' h =>
    ⟨rfl, h.withOverflow _ _ l.totalGasUsed l'.totalGasUsed⟩
  lookup a := sim_loop (Exec.lookupAccount_apply a) (Exec.lookupAccount_apply a)
    fun l l' h => ⟨by rw [h.accounts], h⟩
  insert a x := sim_loop (fun _ => rfl) (fun _ => rfl) fun l l' h => ⟨rfl, h.put a x⟩
  validators := sim_loop Exec.getValidatorSet_apply Exec.getValidatorSet_apply
    fun l l' h => ⟨h.validatorSet, h⟩
  setValidators vs := sim_loop (fun _ => rfl) (fun _ => rfl) fun l l' h =>
    ⟨rfl, h.accounts, rfl, h.contracts, h.contractStorage, h.validators, h.left, h.right,
      h.cacheLeft, h.cacheRight, h.receipts⟩
  putValidator v := sim_loop (Exec.writeIgnored_apply _ _) (Exec.writeIgnored_apply _ _)
    fun l l' h => ⟨rfl, h.write (fun _ => rfl)
      ⟨h.contracts, h.contractStorage, by simp only [Database.putValidator, h.validators]⟩⟩
  addGas n := sim_loop (fun _ => rfl) (fun _ => rfl) fun l l' h =>
    ⟨rfl, h.withOverflow _ _ _ _⟩

/-! ### Contract transactions -/

/-- What two runs of the VM in related contexts give: the same result and related contexts. -/
def SameRun (b : Prop) {α : Type} (r r' : α × ExecutionContext) : Prop :=
  r.1 = r'.1 ∧ SameContext b r.2 r'.2

theorem twin_runVm {b : Prop} {α : Type} {x y : VmM W.Module Database α} {c c' : ExecutionContext}
    {R : Loop W.Module Database → Loop W.Module Database → Prop}
    {T : Database → Database → VmState W.Module Database → VmState W.Module Database → Prop}
    (hR : ∀ l l', R l l' → LoopTwin P W cfg codes Q d d' l l')
    (hstart : ∀ l l' o o', R l l' → T l.storage l'.storage
      ⟨c, l.storage, l.moduleCache, o⟩ ⟨c', l'.storage, l'.moduleCache, o'⟩)
    (h : ∀ l l', R l l' → Sim Never (T l.storage l'.storage)
      (Twin P W cfg codes b l.storage l'.storage) Eq x y) :
    Sim Never R (LoopTwin P W cfg codes Q d d') (SameRun b) (Exec.runVm c x) (Exec.runVm c' y) := by
  refine ⟨stable_never _, fun l l' r t hl ht => .inr ?_⟩
  unfold Exec.runVm at ht ⊢
  cases hs : x ⟨c, l.storage, l.moduleCache, l.overflow⟩ with
  | none =>
    rw [hs] at ht
    cases ht
  | some p =>
    obtain ⟨a, s⟩ := p
    rw [hs] at ht
    obtain ⟨rfl, rfl⟩ := some_pair_inj ht
    obtain ⟨a', s', hs', rfl, hT⟩ := (h l l' hl).matched (hstart l l' _ _ hl) hs
    have hl := hR l l' hl
    rw [hs']
    refine ⟨_, _, rfl, ⟨rfl, hT.context⟩, ?_⟩
    rw [hT.left, hT.right]
    exact ⟨hl.accounts, hl.validatorSet, hl.contracts, hl.contractStorage, hl.validators, hl.left,
      hl.right, hT.cacheLeft, hT.cacheRight, hl.receipts⟩

theorem twin_flush {b : Prop} {ord ord' : HashOrders} {c c' : ExecutionContext}
    (hc : SameContext b c c') :
    Agree Never (LoopTwin P W cfg codes Q d d') (Exec.flush ord c) (Exec.flush ord' c') := by
  refine ⟨stable_never _, fun l l' u t h ht => .inr ?_⟩
  have hf := Exec.flushed_of_flush ht
  obtain ⟨t', ht', hf'⟩ := Exec.flush_apply ord' c' l'
  have hstorage : ∀ m, storageFlushed c m = storageFlushed c' m := fun m => by
    unfold storageFlushed
    rw [hc.storageChanges]
  have hbalances : ∀ m, balancesFlushed c m = balancesFlushed c' m := fun m => by
    unfold balancesFlushed
    rw [hc.balanceChanges]
  refine ⟨(), t', ht', rfl, ?_, ?_, ?_, ?_, ?_, ?_, ?_, ?_, ?_, ?_⟩
  · rw [hf.accounts, hf'.accounts, h.accounts, hbalances]
  · rw [hf.validatorSet, hf'.validatorSet, h.validatorSet]
  · rw [hf.storage, hf'.storage]
    exact h.contracts
  · rw [hf.storage, hf'.storage, h.contractStorage, hstorage]
  · rw [hf.storage, hf'.storage]
    exact h.validators
  · rw [hf.storage]
    exact h.left.trans rfl
  · rw [hf'.storage]
    exact h.right.trans rfl
  · rw [hf.moduleCache]
    exact h.cacheLeft
  · rw [hf'.moduleCache]
    exact h.cacheRight
  · rw [hf.receipts, hf'.receipts]
    exact h.receipts

theorem sameContext_contextFor {b : Prop} {block block' : Block} (hb : b → SameBlock block block')
    (tx : Transaction) (sender contract : Address) :
    SameContext b (Exec.contextFor block tx sender contract)
      (Exec.contextFor block' tx sender contract) :=
  ⟨rfl, rfl, rfl, rfl, rfl, rfl, rfl, rfl, hb⟩

variable {b : Prop} {block block' : Block} {ord ord' : HashOrders}

variable {tx : Transaction}

theorem twin_executeCallOn (hinj : Set.InjOn P.blake3 codes) (hW : BlockFree W b)
    (hb : b → SameBlock block block') {code : Bytes} (hcode : code ∈ codes) {target : Address}
    (hbal : storedBalance d target = storedBalance d' target) (sender : Address) (x : Account) :
    Sim Never (fun l l' => LoopTwin P W cfg codes Q d d' l l' ∧
        l.storage.contracts.lookup (P.blake3 code) = some code) (LoopTwin P W cfg codes Q d d') Eq
      (Exec.executeCallOn P W cfg ord block tx sender target (P.blake3 code) x)
      (Exec.executeCallOn P W cfg ord' block' tx sender target (P.blake3 code) x) := by
  have hc := sameContext_contextFor hb tx sender target
  refine (twin_runVm (T := fun t t' => TwinAt P W cfg codes b t t' (· = target)) (fun l l' h => h.1)
    (fun l l' o o' h => ⟨⟨hc, rfl, rfl, h.1.cacheLeft, h.1.cacheRight⟩, rfl⟩)
    (fun l l' h => twin_callContract (h.1.sameReads fun a (ha : a = target) => ha ▸ hbal) hW hinj
      hcode h.2 _ _)).bind_of (fun _ => stable_never _) ?_
  rintro ⟨res, c⟩ ⟨res', c'⟩ ⟨hres, hcc⟩
  obtain rfl : res = res' := hres
  cases res with
  | error e => exact .ret _
  | ok r =>
    dsimp only
    split_ifs
    · exact (twin_flush hcc).bind fun _ => (execSim_twin.refundGas _ _ _).bind fun _ => .ret _
    · exact (execSim_twin.refundGas _ _ _).bind fun _ => .ret _

theorem twin_executeCall (hinj : Set.InjOn P.blake3 codes) (hW : BlockFree W b)
    (hb : b → SameBlock block block')
    (hbal : storedBalance d (tx.toAddr.getD Address.zero) =
      storedBalance d' (tx.toAddr.getD Address.zero))
    (sender : Address) (x : Account) :
    Sim Never (CodedTwin P W cfg codes Q d d') (LoopTwin P W cfg codes Q d d') Eq
      (Exec.executeCall P W cfg ord block tx sender x)
      (Exec.executeCall P W cfg ord' block' tx sender x) := by
  refine ⟨stable_never _, fun l l' r t h ht => ?_⟩
  unfold Exec.executeCall at ht ⊢
  rw [bind_of_eq (Exec.lookupAccount_apply _ _)] at ht
  rw [bind_of_eq (Exec.lookupAccount_apply _ _), ← h.accounts]
  have hfail : ∀ v : Account × Outcome, (pure v : ExecM W.Module Database _) l = some (r, t) →
      ∃ r' t', (pure v : ExecM W.Module Database _) l' = some (r', t') ∧ r = r' ∧
        LoopTwin P W cfg codes Q d d' t t' := by
    intro v hv
    obtain ⟨rfl, rfl⟩ := pure_eq_some hv
    exact ⟨v, l', rfl, rfl, h.toLoopTwin⟩
  cases hl : l.accounts.lookup (tx.toAddr.getD Address.zero) with
  | none =>
    rw [hl] at ht
    exact .inr (hfail _ ht)
  | some acct =>
    cases hh : acct.codeHash with
    | none =>
      simp only [hl, hh] at ht ⊢
      exact .inr (hfail _ ht)
    | some codeHash =>
      simp only [hl, hh] at ht ⊢
      have hacct : accountOf l.accounts (tx.toAddr.getD Address.zero) = acct := by
        unfold accountOf
        rw [hl]
        rfl
      obtain ⟨code, hcode, rfl, hstored⟩ := h.coded _ codeHash (by rw [hacct, hh])
      exact (twin_executeCallOn hinj hW hb hcode hbal sender x).run l l' r t
        ⟨h.toLoopTwin, hstored⟩ ht

theorem twin_executeDeploy (hinj : Set.InjOn P.blake3 codes) (hW : BlockFree W b)
    (hb : b → SameBlock block block') (hn : block.header.number = block'.header.number)
    (hcode : tx.data ∈ codes) (hbal : ∀ a, storedBalance d a = storedBalance d' a)
    (sender : Address) (x : Account) :
    Agree Never (LoopTwin P W cfg codes Q d d') (Exec.executeDeploy P W cfg ord block tx sender x)
      (Exec.executeDeploy P W cfg ord' block' tx sender x) := by
  have hc := sameContext_contextFor hb tx sender Address.zero
  refine (twin_runVm (T := fun t t' s s' => Twin P W cfg codes b t t' s s' ∧
      s.context.blockNumber = s'.context.blockNumber) (fun l l' h => h)
    (fun l l' o o' h => ⟨⟨hc, rfl, rfl, h.cacheLeft, h.cacheRight⟩, hn⟩)
    (fun l l' h => twin_deployContract (h.sameReads fun a _ => hbal a) hW hinj hcode [])).bind_of
    (fun _ => stable_never _) ?_
  rintro ⟨res, c⟩ ⟨res', c'⟩ ⟨hres, hcc⟩
  obtain rfl : res = res' := hres
  cases res with
  | error e => exact .ret _
  | ok r =>
    have hput : Agree Never (LoopTwin P W cfg codes Q d d')
        (Exec.writeIgnored (.putContractCode r.codeHash) (·.putContractCode r.codeHash tx.data))
        (Exec.writeIgnored (.putContractCode r.codeHash) (·.putContractCode r.codeHash tx.data)) :=
      sim_loop (Exec.writeIgnored_apply _ _) (Exec.writeIgnored_apply _ _) fun l l' h =>
        ⟨rfl, h.write (fun _ => rfl) ⟨by simp only [Database.putContractCode, h.contracts],
          h.contractStorage, h.validators⟩⟩
    exact hput.bind fun _ => (execSim_twin.insert _ _).bind fun _ => (twin_flush hcc).bind fun _ =>
      (execSim_twin.arith _).bind fun _ => (execSim_twin.refundGas _ _ _).bind fun _ => .ret _

theorem executeDeploy_invalid (hinj : Set.InjOn P.blake3 codes) (hcode : tx.data ∈ codes)
    {e : VmError} (he : compileFresh W cfg tx.data = .error e) (block : Block) (ord : HashOrders)
    (sender : Address) (x : Account) {l : Loop W.Module Database}
    (hl : Coherent P W cfg codes l.moduleCache) :
    ∃ cache, Coherent P W cfg codes cache ∧ Exec.executeDeploy P W cfg ord block tx sender x l =
      some ((x, { status := .failure e.display, gasUsed := tx.gasLimit }),
        { l with moduleCache := cache }) := by
  obtain ⟨cache, hcomp, hcoh⟩ := compileModule_coherent (σ := Database) hinj hcode
    (s := ⟨Exec.contextFor block tx sender Address.zero, l.storage, l.moduleCache, l.overflow⟩) hl
  refine ⟨cache, hcoh, ?_⟩
  have hdeploy : deployContract P W cfg tx.data []
      ⟨Exec.contextFor block tx sender Address.zero, l.storage, l.moduleCache, l.overflow⟩ =
        some (.error e, ⟨Exec.contextFor block tx sender Address.zero, l.storage, cache,
          l.overflow⟩) := by
    unfold deployContract
    rw [bind_of_eq hcomp, he]
    rfl
  have hvm : Exec.runVm (Exec.contextFor block tx sender Address.zero)
      (deployContract P W cfg tx.data []) l = some ((.error e,
        Exec.contextFor block tx sender Address.zero), { l with moduleCache := cache }) := by
    unfold Exec.runVm
    rw [hdeploy]
  unfold Exec.executeDeploy
  rw [bind_of_eq hvm]
  rfl

theorem twin_executeDeploy_invalid (hinj : Set.InjOn P.blake3 codes) (hcode : tx.data ∈ codes)
    {e : VmError} (he : compileFresh W cfg tx.data = .error e) (sender : Address) (x : Account) :
    Agree Never (LoopTwin P W cfg codes Q d d') (Exec.executeDeploy P W cfg ord block tx sender x)
      (Exec.executeDeploy P W cfg ord' block' tx sender x) := by
  refine ⟨stable_never _, fun l l' r t h ht => .inr ?_⟩
  obtain ⟨c, hc, hl⟩ := executeDeploy_invalid hinj hcode he block ord sender x h.cacheLeft
  obtain ⟨c', hc', hl'⟩ := executeDeploy_invalid hinj hcode he block' ord' sender x h.cacheRight
  rw [hl] at ht
  obtain ⟨rfl, rfl⟩ := some_pair_inj ht
  exact ⟨_, _, hl', rfl, h.accounts, h.validatorSet, h.contracts, h.contractStorage, h.validators,
    h.left, h.right, hc, hc', h.receipts⟩

/-! ### The loop -/

variable {stx : SignedTransaction}

theorem contractSim_twin (hinj : Set.InjOn P.blake3 codes) (hW : BlockFree W b)
    (hb : b → SameBlock block block') (h : Agrees W cfg codes d d' block block' stx) :
    ExecSim.ContractSim P W cfg Never (CodedTwin P W cfg codes Q d d')
      (LoopTwin P W cfg codes Q d d') ord ord' block block' stx := by
  refine ⟨fun ht x => ?_, fun ht x => twin_executeCall hinj hW hb (h.call ht) _ x⟩
  rcases h.deploy ht with ⟨hn, hbal⟩ | ⟨e, he⟩
  · exact (twin_executeDeploy hinj hW hb hn (h.deployed ht) hbal _ x).of fun _ _ h =>
      h.toLoopTwin
  · exact (twin_executeDeploy_invalid hinj (h.deployed ht) he _ x).of fun _ _ h => h.toLoopTwin

/-- Receipts of one transaction on both sides keep the relation between the receipts. -/
def Pushes (P : Primitives) (Q : ReceiptRel) (block block' : Block) (i i' : ℕ)
    (stx : SignedTransaction) : Prop :=
  ∀ rs rs' o, Q rs rs' →
    Q (rs ++ [receiptOf P block i stx o]) (rs' ++ [receiptOf P block' i' stx o])

theorem twin_executeTx (hinj : Set.InjOn P.blake3 codes) (hW : BlockFree W b)
    (hb : b → SameBlock block block') {i i' : ℕ} (h : Agrees W cfg codes d d' block block' stx)
    (hQ : Pushes P Q block block' i i' stx) :
    Agree Never (CodedTwin P W cfg codes Q d d')
      (Exec.executeTx P W cfg ord block i stx) (Exec.executeTx P W cfg ord' block' i' stx) := by
  have hpush : ∀ o, Agree Never (LoopTwin P W cfg codes Q d d')
      (Exec.pushReceipt (receiptOf P block i stx o))
      (Exec.pushReceipt (receiptOf P block' i' stx o)) := fun o =>
    sim_loop (fun _ => rfl) (fun _ => rfl) fun l l' h =>
      ⟨rfl, h.accounts, h.validatorSet, h.contracts, h.contractStorage, h.validators, h.left,
        h.right, h.cacheLeft, h.cacheRight, hQ _ _ o h.receipts⟩
  have hsim : Sim Never (CodedTwin P W cfg codes Q d d') (LoopTwin P W cfg codes Q d d') Eq
      (Exec.executeTx P W cfg ord block i stx) (Exec.executeTx P W cfg ord' block' i' stx) :=
    ExecSim.executeTx readSim_coded execSim_twin (fun _ _ h => h.toLoopTwin)
      (contractSim_twin hinj hW hb h) hpush
  refine ⟨stable_never _, fun l l' u t hl ht => .inr ?_⟩
  obtain ⟨u', t', ht', hu, htwin⟩ := hsim.matched hl ht
  exact ⟨u', t', ht', hu, htwin, hl.coded.codeStep (Exec.executeTx_codeStep ht) h.deployed⟩

theorem twin_executeTxs (hinj : Set.InjOn P.blake3 codes) (hW : BlockFree W b)
    (hb : b → SameBlock block block') {ord ord' : ℕ → HashOrders} :
    ∀ {txs : List SignedTransaction} {i i' : ℕ},
      (∀ stx ∈ txs, Agrees W cfg codes d d' block block' stx) →
      (∀ stx ∈ txs, ∀ j, Pushes P Q block block' (i + j) (i' + j) stx) →
      Agree Never (CodedTwin P W cfg codes Q d d')
        (Exec.executeTxs P W cfg ord block i txs) (Exec.executeTxs P W cfg ord' block' i' txs)
  | [], _, _, _, _ => .ret _
  | stx :: txs, i, i', h, hQ => by
    unfold Exec.executeTxs
    refine (twin_executeTx hinj hW hb (h stx (by simp)) (hQ stx (by simp) 0)).bind fun _ => ?_
    refine twin_executeTxs hinj hW hb (fun t ht => h t (by simp [ht])) fun t ht j => ?_
    rw [Nat.add_assoc, Nat.add_assoc]
    exact hQ t (by simp [ht]) (1 + j)

theorem LoopTwin.symm (h : LoopTwin P W cfg codes Q d d' l l') :
    LoopTwin P W cfg codes (flip Q) d' d l' l :=
  ⟨h.accounts.symm, h.validatorSet.symm, h.contracts.symm, h.contractStorage.symm,
    h.validators.symm, h.right, h.left, h.cacheRight, h.cacheLeft, h.receipts⟩

theorem CodedTwin.symm (h : CodedTwin P W cfg codes Q d d' l l') :
    CodedTwin P W cfg codes (flip Q) d' d l' l := by
  refine ⟨h.toLoopTwin.symm, fun a k hk => ?_⟩
  obtain ⟨code, hcode, hh, hl⟩ := h.coded a k (by rw [h.accounts]; exact hk)
  exact ⟨code, hcode, hh, by rw [← h.contracts, hl]⟩

theorem Agrees.symm (h : Agrees W cfg codes d d' block block' stx) :
    Agrees W cfg codes d' d block' block stx :=
  ⟨h.deployed, fun ht => (h.deploy ht).imp_left fun hs => ⟨hs.1.symm, fun a => (hs.2 a).symm⟩,
    fun ht => (h.call ht).symm⟩

theorem twin_executeTxs_cases (hinj : Set.InjOn P.blake3 codes) (hW : BlockFree W b)
    (hb : b → SameBlock block block') {ord ord' : ℕ → HashOrders} {txs : List SignedTransaction}
    {i j : ℕ} (h : ∀ stx ∈ txs, Agrees W cfg codes d d' block block' stx)
    (hQ : ∀ stx ∈ txs, ∀ n, Pushes P Q block block' (i + n) (j + n) stx)
    (hl : CodedTwin P W cfg codes Q d d' l l') :
    Exec.executeTxs P W cfg ord block i txs l = none ∧
        Exec.executeTxs P W cfg ord' block' j txs l' = none ∨
      ∃ t t', Exec.executeTxs P W cfg ord block i txs l = some ((), t) ∧
        Exec.executeTxs P W cfg ord' block' j txs l' = some ((), t') ∧
        CodedTwin P W cfg codes Q d d' t t' := by
  cases hx : Exec.executeTxs P W cfg ord block i txs l with
  | some r =>
    obtain ⟨_, t', ht', -, hT⟩ := (twin_executeTxs hinj hW hb h hQ).matched hl hx
    exact .inr ⟨r.2, t', rfl, ht', hT⟩
  | none =>
    cases hy : Exec.executeTxs P W cfg ord' block' j txs l' with
    | none => exact .inl ⟨rfl, rfl⟩
    | some r =>
      have hback : Agree Never (CodedTwin P W cfg codes (flip Q) d' d)
          (Exec.executeTxs P W cfg ord' block' j txs) (Exec.executeTxs P W cfg ord block i txs) :=
        twin_executeTxs hinj hW (fun hb' => ⟨(hb hb').1.symm, (hb hb').2.1.symm,
          (hb hb').2.2.symm⟩) (fun stx hstx => (h stx hstx).symm)
          fun stx hstx n rs rs' o hr => hQ stx hstx n rs' rs o hr
      obtain ⟨_, t, ht, -⟩ := hback.matched hl.symm hy
      rw [hx] at ht
      cases ht

/-! ### Two nodes with one ledger -/

/-- Chain states in which transactions run alike. Their heads and stored blocks may differ. -/
structure SameLedger (s s' : ChainState Database) : Prop where
  epoch : s.currentEpoch = s'.currentEpoch
  accounts : s.storage.accounts = s'.storage.accounts
  contracts : s.storage.contracts = s'.storage.contracts
  contractStorage : s.storage.contractStorage = s'.storage.contractStorage
  validators : s.storage.validators = s'.storage.validators

theorem SameLedger.refl (s : ChainState Database) : SameLedger s s := ⟨rfl, rfl, rfl, rfl, rfl⟩

theorem SameLedger.agrees {s s' : ChainState Database} (h : SameLedger s s')
    (hn : block.header.number = block'.header.number)
    (hd : stx.transaction.txType = .contractDeploy → stx.transaction.data ∈ codes) :
    Agrees W cfg codes s.storage s'.storage block block' stx :=
  ⟨hd, fun _ => .inl ⟨hn, fun a => storedBalance_of_accounts h.accounts a⟩,
    fun _ => storedBalance_of_accounts h.accounts _⟩

theorem SameLedger.codedTwin {s s' : ChainState Database} (h : SameLedger s s')
    (hcoded : Coded P codes s.storage s.storage.accounts)
    {cache cache' : HashMap Blake3Hash W.Module} (hc : Coherent P W cfg codes cache)
    (hc' : Coherent P W cfg codes cache') (hQ : Q [] []) :
    CodedTwin P W cfg codes Q s.storage s'.storage (s.toLoop cache) (s'.toLoop cache') := by
  refine ⟨⟨?_, ?_, h.contracts, h.contractStorage, h.validators, rfl, rfl, hc, hc', hQ⟩, ?_⟩
  · rw [Loop.accounts_toLoop, Loop.accounts_toLoop, h.accounts]
  · exact congrArg EpochInfo.validatorSet h.epoch
  · rw [Loop.accounts_toLoop]
    exact hcoded

end

end Rustchain.Consensus
