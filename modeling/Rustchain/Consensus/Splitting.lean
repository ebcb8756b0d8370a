import Rustchain.Consensus.Replicas

/-! # Splitting a block

A block whose transactions are cut in two, against two consecutive blocks with the two parts. The
accounts and the contract storage come out the same if the second part deploys nothing and calls
only contracts whose balance the first part has left alone: the VM reads balances from the database,
which the first part of a block has not reached yet, and the address of a new contract depends on
the number of the block. -/

namespace Rustchain.Consensus

open Rustchain.Core Storage Vm Lib.Machine Lib.Maps Lib.Partial Lib.Runs

section
variable (P : Primitives) (W : Wasmtime) (cfg : VmConfig)

/-- The state that `apply_block` leaves; `none` is a panic. -/
def afterBlock (s : ChainState Database) (i : EngineInput W) : Option (ChainState Database) :=
  (applyBlock P W cfg i.ord i.cache s i.block).map (·.state)

def tables (s : ChainState Database) : Table Address Account × Table Bytes Bytes :=
  (s.storage.accounts, s.storage.contractStorage)

/-- Accounts and contract storage after one block. -/
def tablesAfterOne (s : ChainState Database) (i : EngineInput W) :
    Option (Table Address Account × Table Bytes Bytes) :=
  (afterBlock P W cfg s i).map tables

/-- Accounts and contract storage after two blocks. -/
def tablesAfterTwo (s : ChainState Database) (i₁ i₂ : EngineInput W) :
    Option (Table Address Account × Table Bytes Bytes) := do
  let s₁ ← afterBlock P W cfg s i₁
  tablesAfterOne P W cfg s₁ i₂

/-- A block on top of the head, and two blocks on top of it with the same transactions. -/
structure SplitBlock (s : ChainState Database) (block block₁ block₂ : Block) : Prop where
  transactions : block.transactions = block₁.transactions ++ block₂.transactions
  whole : Extends P s block
  first : Extends P s block₁
  parent : block₂.header.parentHash = block₁.hash P
  number : block₂.header.number = (addU 64 block₁.header.number 1).val

/-- The transactions do not see whether the database is `d` or `d'`, nor the number of their block:
the contracts they call have the same balance in both, and code they deploy does not compile. -/
structure Indifferent (d d' : Database) (txs : List SignedTransaction) : Prop where
  deploy : ∀ stx ∈ txs, stx.transaction.txType = .contractDeploy →
    ∃ e, compileFresh W cfg stx.transaction.data = .error e
  call : ∀ stx ∈ txs, stx.transaction.txType = .contractCall →
    storedBalance d (stx.transaction.toAddr.getD Address.zero) =
      storedBalance d' (stx.transaction.toAddr.getD Address.zero)

end

variable {P : Primitives} {W : Wasmtime} {cfg : VmConfig} {codes : Set Bytes}

/-! ### Reachable states -/

variable {s : ChainState Database}

theorem Reachable.codedInv {g : GenesisConfig} (h : Reachable P W cfg g s) :
    ReplicaInv P Set.univ s := by
  obtain ⟨s₀, ops, hs₀, hrun⟩ := h
  refine hrun.invariant (replicaInv_started hs₀) fun t op u ht _ hstep => ?_
  have hnode := nodeInv_step P ht.toNodeInv hstep
  cases op with
  | applyBlock ord cache block =>
    obtain ⟨a, rs, ha, hok, rfl⟩ := hstep
    obtain ⟨-, -, l, hl, rfl⟩ := applyBlock_ok ha hok
    exact replicaInv_committed ht (fun _ _ _ => Set.mem_univ _) hl _
  | advanceEpoch params now =>
    obtain rfl := hstep
    refine ⟨hnode, ?_⟩
    rw [maybeAdvanceEpoch_eq]
    split_ifs
    · exact ht.coded
    · exact ht.coded
  | putValidator v =>
    obtain rfl := hstep
    exact ⟨hnode, ht.coded⟩
  | restart =>
    obtain ⟨d, hd⟩ := hstep
    refine ⟨hnode, ?_⟩
    rw [storage_restart P ht.toNodeInv hd]
    exact ht.coded

theorem Coded.of_stored {d : Database} {t : Table Address Account} (h : Coded P Set.univ d t)
    (hd : ∀ k code, d.contracts.lookup k = some code → code ∈ codes) : Coded P codes d t := by
  intro a k hk
  obtain ⟨code, -, hh, hl⟩ := h a k hk
  exact ⟨code, hd k code hl, hh, hl⟩

/-! ### The two halves -/

theorem tables_committed {block : Block} {l : Loop W.Module Database} (hk : Keyed l.accounts)
    (o : HashOrders) :
    tables (committed P o s block l) = (l.accounts, l.storage.contractStorage) := by
  unfold tables
  rw [show (committed P o s block l).storage.accounts = l.accounts from
    accounts_commitBlock hk _ _]
  rfl

theorem afterBlock_of_extends {i : EngineInput W} (h : Extends P s i.block) :
    afterBlock P W cfg s i =
      (Exec.executeTxs P W cfg i.ord i.block 0 i.block.transactions (s.toLoop i.cache)).map fun r =>
        committed P (i.ord i.block.transactions.length) s i.block r.2 := by
  unfold afterBlock
  rw [applyBlock_of_extends h, Option.map_map]
  rfl

/-- The second half of a block and a block of its own begin with the same accounts. -/
theorem codedTwin_second {block₁ : Block} {o : HashOrders} {l l₁ : Loop W.Module Database}
    (h : CodedTwin P W cfg codes (fun _ _ => True) s.storage s.storage l l₁)
    (hk : Keyed l₁.accounts) {cache : HashMap Blake3Hash W.Module}
    (hc : Coherent P W cfg codes cache) :
    CodedTwin P W cfg codes (fun _ _ => True) s.storage (committed P o s block₁ l₁).storage l
      ((committed P o s block₁ l₁).toLoop cache) := by
  refine ⟨⟨?_, h.validatorSet, h.contracts, h.contractStorage, h.validators, h.left, rfl,
    h.cacheLeft, hc, trivial⟩, h.coded⟩
  rw [Loop.accounts_toLoop, h.accounts]
  exact (accounts_commitBlock hk _ _).symm

theorem tables_second (hinj : Set.InjOn P.blake3 codes) (hW : BlockFree W False)
    {s s₁ : ChainState Database} {l : Loop W.Module Database} {block : Block}
    {ord : ℕ → HashOrders} {i₂ : EngineInput W} {n : ℕ}
    (h : CodedTwin P W cfg codes (fun _ _ => True) s.storage s₁.storage l (s₁.toLoop i₂.cache))
    (hk : Keyed l.accounts) (hext : Extends P s₁ i₂.block)
    (hd : DeploysFrom codes i₂.block.transactions)
    (hsep : Indifferent W cfg s.storage s₁.storage i₂.block.transactions) (o : HashOrders) :
    ((Exec.executeTxs P W cfg ord block n i₂.block.transactions l).map fun r =>
      tables (committed P o s block r.2)) = tablesAfterOne P W cfg s₁ i₂ := by
  have hk₁ : Keyed (s₁.toLoop i₂.cache).accounts := h.accounts ▸ hk
  unfold tablesAfterOne
  rw [afterBlock_of_extends hext, Option.map_map]
  have hagree : ∀ stx ∈ i₂.block.transactions,
      Agrees W cfg codes s.storage s₁.storage block i₂.block stx := fun stx hstx =>
    ⟨hd stx hstx, fun ht => .inr (hsep.deploy stx hstx ht), hsep.call stx hstx⟩
  rcases twin_executeTxs_cases (i := n) hinj hW False.elim hagree
    (fun _ _ _ _ _ _ _ => trivial) h with ⟨hl, hl'⟩ | ⟨t, t', hl, hl', ht⟩
  · rw [hl, hl']
    rfl
  · rw [hl, hl', Option.map_some, Option.map_some, Function.comp_apply,
      tables_committed ((Exec.executeTxs_effect hl).keyed hk),
      tables_committed ((Exec.executeTxs_effect hl').keyed hk₁), ht.accounts, ht.contractStorage]

namespace Small

theorem blockFree : BlockFree Wasmtime.small False := by
  have hask : ∀ p a, ¬ (HostCall.transfer p a).AsksBlock := by
    rintro p a (h | h | h) <;> cases h
  refine ⟨fun _ _ => trivial, fun inst _ _ => ?_⟩
  show (Vm.Small.call inst).Only _
  unfold Vm.Small.call
  cases inst.module with
  | payer => exact ⟨.inr (hask _ _), fun _ _ => trivial⟩
  | empty => trivial
  | zero => trivial

def create (value : ℕ) : SignedTransaction := tx 2 0 .contractDeploy none value Vm.Small.payerCode

def created : Address := deployAddress .small ((KeyPair.small 2).address .small) 1

def invoke : SignedTransaction := tx 2 1 .contractCall (some created) 0 []

def oneBlock (value : ℕ) : EngineInput Wasmtime.small :=
  input (next genesisBlock [create value, invoke])

def firstBlock (value : ℕ) : EngineInput Wasmtime.small := input (next genesisBlock [create value])

def secondBlock (value : ℕ) : EngineInput Wasmtime.small :=
  input (next (firstBlock value).block [invoke])

theorem splitBlock (value : ℕ) : SplitBlock .small start (oneBlock value).block
    (firstBlock value).block (secondBlock value).block :=
  ⟨rfl, ⟨rfl, rfl⟩, ⟨rfl, rfl⟩, rfl, rfl⟩

theorem contracts_start : start.storage.contracts = ∅ :=
  field_initialized .small (f := Database.contracts) (fun _ _ => rfl) (fun _ _ => rfl)
    (fun _ _ => rfl) genesis genesisBlock .empty

def createdBalance (t : Table Address Account × Table Bytes Bytes) : ℕ :=
  (accountOf t.1 created).balance

end Small

end Rustchain.Consensus
