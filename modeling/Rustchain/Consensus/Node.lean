import Rustchain.Consensus.Block
import Rustchain.Lib.Runs

/-! # Runs of a node

A node starts from a genesis file and then applies blocks, advances epochs, stores validators (as
slashing does) and restarts, in any order. These are its runs on a database without faults; the
states they lead to are the reachable ones. -/

namespace Rustchain.Consensus

open Rustchain.Core Storage Vm Lib.Machine Lib.Maps Lib.Runs

variable (P : Primitives)

/-! ### Starting and restarting -/

def initialized (g : GenesisConfig) (b : Block) (d : Database) : Database :=
  (g.toValidatorInfos.foldl (fun d v => d.putValidator v)
    (g.initialAccounts.foldl (fun d a => d.putAccount (Account.new a.address a.balance))
      (((d.putBlock P b).setChainHeight 0).setGenesisHash (b.hash P)))).putEpoch (firstEpoch g)

theorem run_write_bind {α : Type} (op : StorageOp) (f : Database → Database)
    (k : Unit → InitM Database α) (d : Database) :
    (write op f >>= k : InitM Database α).run d = (k ()).run (f d) := rfl

theorem run_forM_write_bind {α β : Type} (op : α → StorageOp) (f : α → Database → Database)
    (k : Unit → InitM Database β) : ∀ (l : List α) (d : Database),
      ((l.forM fun a => write (op a) (f a)) >>= k : InitM Database β).run d =
        (k ()).run (l.foldl (fun d a => f a d) d)
  | [], _ => rfl
  | a :: l, d => by
    rw [List.foldl_cons, ← run_forM_write_bind op f k l (f a d)]
    rfl

theorem run_initChain (g : GenesisConfig) (b : Block) (d : Database) :
    (initChain P g b : InitM Database _).run d =
      (.ok (b, 0, firstEpoch g), initialized P g b d) := by
  unfold initChain initialized
  rw [run_write_bind, run_write_bind, run_write_bind, run_forM_write_bind, run_forM_write_bind,
    run_write_bind]
  rfl

theorem run_reload (g : GenesisConfig) (d : Database) :
    (reload g : InitM Database _).run d =
      (match d.blocks.lookup (d.chainHeight.getD 0) with
        | none => .error (.stateTransition "head block not found")
        | some head => .ok ((reloadedEpoch g (d.chainHeight.getD 0)).map fun e =>
            (head, d.chainHeight.getD 0, e)), d) := by
  have h : (reload g : InitM Database _).run d =
      (match d.blocks.lookup (d.chainHeight.getD 0) with
        | none => throw (.stateTransition "head block not found")
        | some head => pure ((reloadedEpoch g (d.chainHeight.getD 0)).map fun e =>
            (head, d.chainHeight.getD 0, e)) : InitM Database _).run d := rfl
  rw [h]
  cases d.blocks.lookup (d.chainHeight.getD 0) <;> rfl

theorem run_loadOrInit (g : GenesisConfig) (b : Block) (d : Database) :
    (loadOrInit P g b : InitM Database _).run d =
      match d.genesisHash with
      | some existing =>
        if existing ≠ b.hash P then
          (.error (.stateTransition "genesis hash mismatch with existing database"), d)
        else (reload g : InitM Database _).run d
      | none => (.ok (some (b, 0, firstEpoch g)), initialized P g b d) := by
  have h : (loadOrInit P g b : InitM Database _).run d =
      (match d.genesisHash with
        | some existing =>
          if existing ≠ b.hash P then
            throw (.stateTransition "genesis hash mismatch with existing database")
          else reload g
        | none => some <$> initChain P g b : InitM Database _).run d := rfl
  rw [h]
  cases d.genesisHash with
  | none =>
    rw [ExceptT.run_map]
    show (Except.map some ((initChain P g b : InitM Database _).run d).1,
      ((initChain P g b : InitM Database _).run d).2) = _
    rw [run_initChain]
    rfl
  | some existing =>
    dsimp only
    split_ifs
    · rfl
    · rfl

variable {g : GenesisConfig} {s : ChainState Database}

/-- **What `from_genesis` gives**: the first state of a chain on an empty database, or the state
that the reload path reads and computes. -/
theorem fromGenesis_ok {d d' : Database} (h : fromGenesis P g d = (.ok (some s), d')) :
    g.validate = .ok () ∧ ∃ b, g.toGenesisBlock = some b ∧
      (d.genesisHash = none ∧ s = ⟨b, 0, firstEpoch g, initialized P g b d⟩ ∨
        d.genesisHash = some (b.hash P) ∧ ∃ head e,
          d.blocks.lookup (d.chainHeight.getD 0) = some head ∧
          reloadedEpoch g (d.chainHeight.getD 0) = some e ∧
          s = ⟨head, d.chainHeight.getD 0, e, d⟩) := by
  unfold fromGenesis at h
  cases hv : g.validate with
  | error e => simp [hv] at h
  | ok u =>
    cases hb : g.toGenesisBlock with
    | none => simp [hv, hb] at h
    | some b =>
      refine ⟨rfl, b, rfl, ?_⟩
      simp only [hv, hb, run_loadOrInit] at h
      cases hg : d.genesisHash with
      | none =>
        simp only [hg, Prod.mk.injEq] at h
        exact .inl ⟨rfl, (Option.some.inj (Except.ok.inj h.1)).symm⟩
      | some existing =>
        simp only [hg] at h
        split_ifs at h with hne
        · simp [Except.map] at h
        · refine .inr ⟨by rw [not_not.mp hne], ?_⟩
          rw [run_reload] at h
          cases hh : d.blocks.lookup (d.chainHeight.getD 0) with
          | none => simp [hh, Except.map] at h
          | some head =>
            cases he : reloadedEpoch g (d.chainHeight.getD 0) with
            | none => simp [hh, he, Except.map] at h
            | some e =>
              simp only [hh, he, Option.map_some, Prod.mk.injEq] at h
              exact ⟨head, e, rfl, rfl, (Option.some.inj (Except.ok.inj h.1)).symm⟩

theorem fromGenesis_fresh {b : Block} {d : Database} (hv : g.validate = .ok ())
    (hb : g.toGenesisBlock = some b) (hd : d.genesisHash = none) :
    fromGenesis P g d = (.ok (some ⟨b, 0, firstEpoch g, initialized P g b d⟩),
      initialized P g b d) := by
  unfold fromGenesis
  simp only [hv, hb, run_loadOrInit, hd]
  rfl

/-! ### Steps and reachable states -/

/-- What a node does with its chain state: apply a block (with any content of the module cache and
any order of iteration), advance the epoch, store a validator, restart. -/
inductive ChainOp (W : Wasmtime) where
  | applyBlock (ord : ℕ → HashOrders) (cache : HashMap Blake3Hash W.Module) (block : Block)
  | advanceEpoch (params : ConsensusParams) (now : ℕ)
  | putValidator (v : ValidatorInfo)
  | restart

section
variable (W : Wasmtime) (cfg : VmConfig) (g : GenesisConfig)

/-- The step relation of a node; a block that is refused is no step. -/
def ChainStep (s : ChainState Database) : ChainOp W → ChainState Database → Prop
  | .applyBlock ord cache block, s' =>
    ∃ a rs, applyBlock P W cfg ord cache s block = some a ∧ a.result = .ok rs ∧ a.state = s'
  | .advanceEpoch params now, s' => (maybeAdvanceEpoch params now s).val.2 = s'
  | .putValidator v, s' => { s with storage := s.storage.putValidator v } = s'
  | .restart, s' => ∃ d, fromGenesis P g s.storage = (.ok (some s'), d)

/-- The state of a node that was started for the first time. -/
def Started (s : ChainState Database) : Prop :=
  ∃ d, fromGenesis P g Database.empty = (.ok (some s), d)

/-- The states that runs of a node lead to. -/
def Reachable (s : ChainState Database) : Prop :=
  ∃ s₀ ops, Started P g s₀ ∧ Run (ChainStep P W cfg g) Free s₀ ops s

end

def blocksOf {W : Wasmtime} (ops : List (ChainOp W)) : List Block :=
  ops.filterMap fun
    | .applyBlock _ _ block => some block
    | _ => none

theorem blocksOf_append {W : Wasmtime} (ops ops' : List (ChainOp W)) :
    blocksOf (ops ++ ops') = blocksOf ops ++ blocksOf ops' :=
  List.filterMap_append ..

/-- The transactions that a step of a node executes. -/
def executedBy (P : Primitives) (W : Wasmtime) (cfg : VmConfig) (s : ChainState Database) :
    ChainOp W → List SignedTransaction
  | .applyBlock ord cache block =>
    Exec.executed P W cfg ord block 0 block.transactions (s.toLoop cache)
  | _ => []

/-- No arithmetic operation of a block overflows. -/
def NoOverflow (P : Primitives) (W : Wasmtime) (cfg : VmConfig) (s : ChainState Database) :
    ChainOp W → Prop
  | .applyBlock ord cache block =>
    ∀ a, applyBlock P W cfg ord cache s block = some a → a.overflow = false
  | _ => True

/-- What the engine is given with one block: the orders of iteration, the content of the module
cache, the block, and the reading of the clock afterwards. -/
structure EngineInput (W : Wasmtime) where
  ord : ℕ → HashOrders
  cache : HashMap Blake3Hash W.Module
  block : Block
  now : ℕ

/-- One block as the engine takes it: `apply_block` and then `maybe_advance_epoch`. -/
def EngineStep (W : Wasmtime) (cfg : VmConfig) (g : GenesisConfig) (params : ConsensusParams)
    (s : ChainState Database) (i : EngineInput W) (s' : ChainState Database) : Prop :=
  ∃ t, ChainStep P W cfg g s (.applyBlock i.ord i.cache i.block) t ∧
    ChainStep P W cfg g t (.advanceEpoch params i.now) s'

/-! ### Invariants -/

theorem accounts_foldl_putAccount {p : Address → Account → Prop} (hnew : ∀ a b, p a (.new a b)) :
    ∀ (l : List GenesisAccount) (d : Database), (∀ a, p a (accountOf d.accounts a)) → ∀ a, p a
      (accountOf (l.foldl (fun d x => d.putAccount (Account.new x.address x.balance)) d).accounts a)
  | [], _, h => h
  | x :: l, d, h => by
    refine accounts_foldl_putAccount hnew l _ fun a => ?_
    show p a (accountOf (d.accounts.insert x.address _) a)
    by_cases ha : a = x.address
    · rw [ha, accountOf_insert_self]
      exact hnew _ _
    · rw [accountOf_insert_ne _ _ ha]
      exact h a

theorem field_foldl {α β : Type} {f : Database → β} {w : Database → α → Database}
    (h : ∀ d a, f (w d a) = f d) : ∀ (l : List α) (d : Database), f (l.foldl w d) = f d
  | [], _ => rfl
  | a :: l, d => (field_foldl h l (w d a)).trans (h d a)

theorem accounts_initialized {p : Address → Account → Prop} (hnew : ∀ a b, p a (.new a b))
    {b : Block} {d : Database} (h : ∀ a, p a (accountOf d.accounts a)) :
    ∀ a, p a (accountOf (initialized P g b d).accounts a) := by
  show ∀ a, p a (accountOf (Database.accounts
    (g.toValidatorInfos.foldl (fun d v => d.putValidator v) _)) a)
  rw [field_foldl (f := Database.accounts) (w := fun d v => d.putValidator v) fun _ _ => rfl]
  exact accounts_foldl_putAccount hnew _ _ h

theorem field_initialized {β : Type} {f : Database → β} (ha : ∀ d x, f (d.putAccount x) = f d)
    (hv : ∀ d v, f (d.putValidator v) = f d) (he : ∀ d e, f (d.putEpoch e) = f d)
    (g : GenesisConfig) (b : Block) (d : Database) : f (initialized P g b d) =
      f (((d.putBlock P b).setChainHeight 0).setGenesisHash (b.hash P)) := by
  unfold initialized
  rw [he, field_foldl (f := f) (w := fun d v => d.putValidator v) hv,
    field_foldl (f := f) (w := fun d (a : GenesisAccount) =>
      d.putAccount (Account.new a.address a.balance)) fun d a => ha d _]

theorem genesisHash_initialized (g : GenesisConfig) (b : Block) (d : Database) :
    (initialized P g b d).genesisHash = some (b.hash P) :=
  field_initialized P (f := Database.genesisHash) (fun _ _ => rfl) (fun _ _ => rfl)
    (fun _ _ => rfl) g b d

theorem jailFree_genesis (g : GenesisConfig) : JailFree (genesisValidatorSet g) := by
  intro v hv
  obtain ⟨gv, -, rfl⟩ := List.mem_map.mp hv
  rfl

theorem unjail_of_none {params : ConsensusParams} {now : ℕ} {v : ValidatorInfo}
    (h : v.jailedUntil = none) : unjail params now v = v := by
  unfold unjail
  rw [h]

theorem jailFree_nextEpoch {params : ConsensusParams} {now : ℕ}
    (h : JailFree s.currentEpoch.validatorSet) :
    JailFree (nextEpoch params now s).val.validatorSet := by
  intro v hv
  have hmem := List.mem_of_mem_take hv
  rw [List.mem_insertionSort] at hmem
  obtain ⟨w, hw, rfl⟩ := List.mem_map.mp (List.mem_of_mem_filter hmem)
  rw [unjail_of_none (h w hw)]
  exact h w hw

/-- What holds in every reachable state: accounts stand under their addresses, nobody is jailed in
the validator set in memory, and the database knows its genesis. -/
structure NodeInv (s : ChainState Database) : Prop where
  keyed : Keyed s.storage.accounts
  jailFree : JailFree s.currentEpoch.validatorSet
  hasGenesis : s.storage.genesisHash ≠ none

theorem nodeInv_fromGenesis {d d' : Database} (h : fromGenesis P g d = (.ok (some s), d'))
    (hk : Keyed d.accounts) : NodeInv s := by
  obtain ⟨-, b, -, ⟨-, rfl⟩ | ⟨hg, head, e, -, he, rfl⟩⟩ := fromGenesis_ok P h
  · exact ⟨accounts_initialized P (p := fun a x => x.address = a) (fun _ _ => rfl) hk,
      jailFree_genesis g, by simp [genesisHash_initialized]⟩
  · refine ⟨hk, ?_, by simp [hg]⟩
    unfold reloadedEpoch at he
    dsimp only at he
    split_ifs at he
    obtain rfl := Option.some.inj he
    exact jailFree_genesis g

theorem maybeAdvanceEpoch_eq (params : ConsensusParams) (now : ℕ) (s : ChainState Database) :
    (maybeAdvanceEpoch params now s).val.2 =
      if s.height = s.currentEpoch.endBlock then
        { s with
          currentEpoch := (nextEpoch params now s).val
          storage := s.storage.putEpoch (nextEpoch params now s).val }
      else s := by
  unfold maybeAdvanceEpoch EpochInfo.isLastBlock
  by_cases h : s.height = s.currentEpoch.endBlock
  · rw [if_pos h, if_neg (by simp [h])]
    rfl
  · rw [if_neg h, if_pos (by simp [h])]

theorem accounts_maybeAdvanceEpoch (params : ConsensusParams) (now : ℕ) (s : ChainState Database) :
    (maybeAdvanceEpoch params now s).val.2.storage.accounts = s.storage.accounts := by
  rw [maybeAdvanceEpoch_eq]
  split_ifs <;> rfl

theorem nodeInv_applied {W : Wasmtime} {cfg : VmConfig} {ord : ℕ → HashOrders}
    {cache : HashMap Blake3Hash W.Module} {block : Block} {a : Applied W.Module Database}
    {rs : List TransactionReceipt} (h : NodeInv s)
    (ha : applyBlock P W cfg ord cache s block = some a) (hok : a.result = .ok rs) :
    NodeInv a.state := by
  have hkeyed := applyBlock_keyed ha hok h.keyed
  obtain ⟨-, -, l, hl, rfl⟩ := applyBlock_ok ha hok
  have heff := Exec.executeTxs_effect hl
  refine ⟨hkeyed, heff.jailFree h.jailFree, ?_⟩
  show l.storage.genesisHash ≠ none
  rw [heff.chain]
  exact h.hasGenesis

theorem nodeInv_step {W : Wasmtime} {cfg : VmConfig} {s s' : ChainState Database} {op : ChainOp W}
    (h : NodeInv s) (hs : ChainStep P W cfg g s op s') : NodeInv s' := by
  cases op with
  | applyBlock ord cache block =>
    obtain ⟨a, rs, ha, hok, rfl⟩ := hs
    exact nodeInv_applied P h ha hok
  | advanceEpoch params now =>
    obtain rfl := hs
    rw [maybeAdvanceEpoch_eq]
    split_ifs
    · exact ⟨h.keyed, jailFree_nextEpoch h.jailFree, h.hasGenesis⟩
    · exact h
  | putValidator v =>
    obtain rfl := hs
    exact ⟨h.keyed, h.jailFree, h.hasGenesis⟩
  | restart =>
    obtain ⟨d, hd⟩ := hs
    exact nodeInv_fromGenesis P hd h.keyed

theorem storage_restart {s s' : ChainState Database} {d : Database} (h : NodeInv s)
    (hs : fromGenesis P g s.storage = (.ok (some s'), d)) :
    s'.storage = s.storage := by
  obtain ⟨-, b, -, ⟨hg, -⟩ | ⟨-, head, e, -, -, rfl⟩⟩ := fromGenesis_ok P hs
  · exact absurd hg h.hasGenesis
  · rfl

theorem Reachable.inv {W : Wasmtime} {cfg : VmConfig} (h : Reachable P W cfg g s) : NodeInv s := by
  obtain ⟨s₀, ops, ⟨d, hd⟩, hrun⟩ := h
  refine hrun.invariant ?_ fun t i u ht _ hs => nodeInv_step P ht hs
  exact nodeInv_fromGenesis P hd fun a => rfl

/-! ### A small chain -/

namespace Small

def genesis : GenesisConfig where
  chainId := 1
  chainName := "small"
  timestamp := 0
  initialValidators :=
    [⟨(KeyPair.small 1).address .small, (KeyPair.small 1).publicKey .small, 100⟩]
  initialAccounts := [⟨(KeyPair.small 2).address .small, 10 ^ 6⟩]
  consensusParams := ⟨1000, 10, 1, 10, 5, 1, 1000, 10, 1, 10, 10⟩
  gasLimit := 10 ^ 7

def genesisBlock : Block :=
  .genesis 1 0 ((KeyPair.small 1).address .small) ((KeyPair.small 1).publicKey .small) (10 ^ 7)
    (s!"rustchain genesis: {genesis.chainName}").toUTF8.data.toList

def start : ChainState Database :=
  ⟨genesisBlock, 0, firstEpoch genesis, initialized .small genesis genesisBlock .empty⟩

theorem started : Started .small genesis start :=
  ⟨_, fromGenesis_fresh .small (by decide +kernel) rfl rfl⟩

theorem reachable_start : Reachable .small .small .default genesis start :=
  ⟨start, [], started, .nil⟩

def tx (b : UInt8) (nonce : ℕ) (txType : TxType) (toAddr : Option Address) (value : ℕ)
    (data : Bytes) : SignedTransaction :=
  .new .small ⟨1, nonce, (KeyPair.small b).address .small, toAddr, value, txType, 50000, 1, data, 0⟩
    (KeyPair.small b)

def next (head : Block) (txs : List SignedTransaction) : Block where
  header :=
    { version := protocolVersion, chainId := 1, number := head.header.number + 1, timestamp := 1
      parentHash := head.hash .small, stateRoot := Blake3Hash.zero
      transactionsRoot := Block.computeTransactionsRoot .small ⟨head.header, txs⟩
      receiptsRoot := Blake3Hash.zero, validator := (KeyPair.small 1).address .small
      validatorPubkey := (KeyPair.small 1).publicKey .small
      validatorSignature := Signature.default, epoch := 0, gasUsed := 0, gasLimit := 10 ^ 7
      extraData := [] }
  transactions := txs

def apply (s : ChainState Database) (block : Block) : Option (Applied Small.Module Database) :=
  applyBlock .small .small .default (fun _ => .listed) ∅ s block

def input (block : Block) : EngineInput .small := ⟨fun _ => .listed, ∅, block, 0⟩

theorem apply_ok (s : ChainState Database) (block : Block)
    {p : Applied Small.Module Database → Prop} [DecidablePred p]
    (h : (apply s block).map (fun a => decide (a.result.toBool ∧ p a)) = some true) :
    ∃ a rs, apply s block = some a ∧ a.result = .ok rs ∧ p a := by
  obtain ⟨a, ha, hcheck⟩ := Option.map_eq_some_iff.mp h
  obtain ⟨hres, hp⟩ := of_decide_eq_true hcheck
  cases hok : a.result with
  | error e => simp [hok, Except.toBool] at hres
  | ok rs => exact ⟨a, rs, ha, hok, hp⟩

theorem reachable_apply {s : ChainState Database} {block : Block}
    {a : Applied Small.Module Database} {rs : List TransactionReceipt}
    (hr : Reachable .small .small .default genesis s) (ha : apply s block = some a)
    (hok : a.result = .ok rs) : Reachable .small .small .default genesis a.state := by
  obtain ⟨s₀, ops, h0, hrun⟩ := hr
  have hstep : ChainStep .small .small .default genesis s
    (.applyBlock (fun _ => .listed) ∅ block) a.state := ⟨a, rs, ha, hok, rfl⟩
  exact ⟨s₀, _, h0, hrun.snoc trivial hstep⟩

end Small

end Rustchain.Consensus
