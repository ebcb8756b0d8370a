import Rustchain.Consensus.Node
import Rustchain.Consensus.Twins

/-! # Replicas

Two nodes that start from one genesis file and take the same blocks go through the same states. What
can differ between them does not matter: the clock, which the epoch transition reads only for jailed
validators and there are none in the set in memory; the orders in which hash maps are iterated; and
the modules that the VM has in its cache. -/

namespace Rustchain.Consensus

open Rustchain.Core Storage Vm Lib.Machine Lib.Maps Lib.Partial Lib.Simulation

section
variable (P : Primitives) (W : Wasmtime) (cfg : VmConfig) (params : ConsensusParams)

/-- A block as the engine takes it: `apply_block` and then, if the block was not refused,
`maybe_advance_epoch`. -/
def takeBlock (s : ChainState Database) (i : EngineInput W) : Option (ChainState Database) :=
  (applyBlock P W cfg i.ord i.cache s i.block).map fun a =>
    match a.result with
    | .ok _ => (maybeAdvanceEpoch params i.now a.state).val.2
    | .error _ => a.state

/-- A list of blocks, one after the other; `none` if the node panics on the way. -/
def takeBlocks (s : ChainState Database) (is : List (EngineInput W)) :
    Option (ChainState Database) :=
  is.foldlM (takeBlock P W cfg params) s

end

variable {P : Primitives} {W : Wasmtime} {cfg : VmConfig} {params : ConsensusParams}
variable {codes : Set Bytes}

/-! ### The commit -/

theorem LoopTwin.storage_eq {Q : ReceiptRel} {d : Database} {l l' : Loop W.Module Database}
    (h : LoopTwin P W cfg codes Q d d l l') : l.storage = l'.storage := by
  have hl := h.left
  have hr := h.right
  unfold SameChain at hl hr
  rw [hl, hr, h.contracts, h.contractStorage, h.validators]

variable {s : ChainState Database}

/-- The order in which the overlay is written out does not matter. -/
theorem committed_eq {M : Type} {ord ord' : HashOrders} {block : Block} {l l' : Loop M Database}
    (hk : Keyed l.accounts) (hk' : Keyed l'.accounts) (hacc : l.accounts = l'.accounts)
    (hst : l.storage = l'.storage) (hvs : l.validatorSet = l'.validatorSet)
    (hrs : l.receipts = l'.receipts) :
    committed P ord s block l = committed P ord' s block l' := by
  have hdb : ∀ (l : Loop M Database) (accs : List Account),
      l.storage.commitBlock P block l.receipts accs =
        { l.storage.commitBlock P block l.receipts [] with
          accounts := (l.storage.commitBlock P block l.receipts accs).accounts } := fun _ _ => rfl
  unfold committed
  rw [hdb l, hdb l', accounts_commitBlock hk, accounts_commitBlock hk', hacc, hst, hvs, hrs]

/-! ### The clock -/

theorem nextEpoch_of_jailFree (h : JailFree s.currentEpoch.validatorSet) (now now' : ℕ) :
    nextEpoch params now s = nextEpoch params now' s := by
  have hmap : ∀ now, s.currentEpoch.validatorSet.validators.map (unjail params now) =
      s.currentEpoch.validatorSet.validators := fun now =>
    (List.map_congr_left fun v hv => unjail_of_none (h v hv)).trans (List.map_id' _)
  unfold nextEpoch nextValidators
  rw [hmap now, hmap now']

theorem maybeAdvanceEpoch_of_jailFree (h : JailFree s.currentEpoch.validatorSet) (now now' : ℕ) :
    (maybeAdvanceEpoch params now s).val.2 = (maybeAdvanceEpoch params now' s).val.2 := by
  rw [maybeAdvanceEpoch_eq, maybeAdvanceEpoch_eq, nextEpoch_of_jailFree h now now']

/-! ### One block -/

/-- What holds of every state that a node gets to by taking blocks. -/
structure ReplicaInv (P : Primitives) (codes : Set Bytes) (s : ChainState Database) : Prop
    extends NodeInv s where
  coded : Coded P codes s.storage s.storage.accounts

theorem replicaInv_started {g : GenesisConfig} (h : Started P g s) : ReplicaInv P codes s := by
  obtain ⟨d, hd⟩ := h
  refine ⟨nodeInv_fromGenesis P hd fun a => rfl, ?_⟩
  have hplain : ∀ a, (accountOf s.storage.accounts a).codeHash = none := by
    obtain ⟨-, b, -, ⟨-, rfl⟩ | ⟨hg, -⟩⟩ := fromGenesis_ok P hd
    · exact accounts_initialized P (p := fun _ x => x.codeHash = none) (fun _ _ => rfl)
        fun a => rfl
    · cases hg
  intro a h hh
  rw [hplain a] at hh
  cases hh

theorem takeBlock_of_extends {i : EngineInput W} (h : Extends P s i.block) :
    takeBlock P W cfg params s i =
      (Exec.executeTxs P W cfg i.ord i.block 0 i.block.transactions (s.toLoop i.cache)).map fun r =>
        (maybeAdvanceEpoch params i.now
          (committed P (i.ord i.block.transactions.length) s i.block r.2)).val.2 := by
  unfold takeBlock
  rw [applyBlock_of_extends h, Option.map_map]
  rfl

theorem takeBlock_of_not_extends {i : EngineInput W} (h : ¬ Extends P s i.block) :
    takeBlock P W cfg params s i = some s := by
  obtain ⟨e, ov, he⟩ := applyBlock_of_not_extends h
  unfold takeBlock
  rw [he]
  rfl

theorem replicaInv_committed (h : ReplicaInv P codes s) {block : Block}
    (hd : DeploysFrom codes block.transactions) {ord : ℕ → HashOrders}
    {cache : HashMap Blake3Hash W.Module} {l : Loop W.Module Database}
    (hl : Exec.executeTxs P W cfg ord block 0 block.transactions (s.toLoop cache) = some ((), l))
    (o : HashOrders) : ReplicaInv P codes (committed P o s block l) := by
  have heff := Exec.executeTxs_effect hl
  have hk : Keyed l.accounts := heff.keyed (by rw [Loop.accounts_toLoop]; exact h.keyed)
  have hacc : (committed P o s block l).storage.accounts = l.accounts :=
    accounts_commitBlock hk _ block
  refine ⟨⟨by rw [hacc]; exact hk, heff.jailFree h.jailFree, ?_⟩, ?_⟩
  · show l.storage.genesisHash ≠ none
    rw [heff.chain]
    exact h.hasGenesis
  · rw [hacc]
    exact Coded.executeTxs (by rw [Loop.accounts_toLoop]; exact h.coded) hd hl

theorem replicaInv_maybeAdvanceEpoch (h : ReplicaInv P codes s) (params : ConsensusParams)
    (now : ℕ) : ReplicaInv P codes (maybeAdvanceEpoch params now s).val.2 := by
  rw [maybeAdvanceEpoch_eq]
  split_ifs
  · exact ⟨⟨h.keyed, jailFree_nextEpoch h.jailFree, h.hasGenesis⟩, h.coded⟩
  · exact h

theorem replicaInv_takeBlock {s t : ChainState Database} (h : ReplicaInv P codes s)
    {i : EngineInput W} (hd : DeploysFrom codes i.block.transactions)
    (ht : takeBlock P W cfg params s i = some t) : ReplicaInv P codes t := by
  by_cases hext : Extends P s i.block
  · rw [takeBlock_of_extends hext] at ht
    obtain ⟨⟨_, l⟩, hl, rfl⟩ := Option.map_eq_some_iff.mp ht
    exact replicaInv_maybeAdvanceEpoch (replicaInv_committed h hd hl _) params i.now
  · rw [takeBlock_of_not_extends hext] at ht
    exact Option.some.inj ht ▸ h

/-- Inputs of two nodes with the same block: any clocks and orders, and caches of compiled code. -/
structure SameInput (P : Primitives) (W : Wasmtime) (cfg : VmConfig) (codes : Set Bytes)
    (i i' : EngineInput W) : Prop where
  block : i.block = i'.block
  deploys : DeploysFrom codes i.block.transactions
  cacheLeft : Coherent P W cfg codes i.cache
  cacheRight : Coherent P W cfg codes i'.cache

theorem takeBlock_replicas (hinj : Set.InjOn P.blake3 codes) (h : ReplicaInv P codes s)
    {i i' : EngineInput W} (hi : SameInput P W cfg codes i i') :
    takeBlock P W cfg params s i = takeBlock P W cfg params s i' := by
  obtain ⟨hblock, hd, hc, hc'⟩ := hi
  by_cases hext : Extends P s i.block
  · rw [takeBlock_of_extends hext, takeBlock_of_extends (hblock ▸ hext), ← hblock]
    rcases twin_executeTxs_cases (i := 0) (Q := Eq) hinj (blockFree_of_same W trivial)
      (fun _ => ⟨rfl, rfl, rfl⟩) (fun stx hstx => (SameLedger.refl s).agrees rfl (hd stx hstx))
      (fun stx _ j rs rs' o he => by rw [he]) ((SameLedger.refl s).codedTwin h.coded hc hc' rfl)
      with ⟨hl, hl'⟩ | ⟨l, l', hl, hl', ht⟩
    · rw [hl, hl']
      rfl
    · have hkeyed : ∀ {cache : HashMap Blake3Hash W.Module} {ord : ℕ → HashOrders}
          {l : Loop W.Module Database}, Exec.executeTxs P W cfg ord i.block 0 i.block.transactions
            (s.toLoop cache) = some ((), l) → Keyed l.accounts := fun hx =>
        (Exec.executeTxs_effect hx).keyed (by rw [Loop.accounts_toLoop]; exact h.keyed)
      rw [hl, hl', Option.map_some, Option.map_some]
      dsimp only
      rw [committed_eq (hkeyed hl) (hkeyed hl') ht.accounts ht.storage_eq ht.validatorSet
        ht.receipts, maybeAdvanceEpoch_of_jailFree (replicaInv_committed h hd hl' _).jailFree]
  · rw [takeBlock_of_not_extends hext, takeBlock_of_not_extends (hblock ▸ hext)]

/-! ### Runs -/

theorem takeBlocks_replicas (hinj : Set.InjOn P.blake3 codes) :
    ∀ {is is' : List (EngineInput W)}, List.Forall₂ (SameInput P W cfg codes) is is' →
      ∀ {s : ChainState Database}, ReplicaInv P codes s →
        takeBlocks P W cfg params s is = takeBlocks P W cfg params s is'
  | _, _, .nil, _, _ => rfl
  | i :: is, i' :: is', .cons hi his, s, h => by
    unfold takeBlocks
    rw [List.foldlM_cons, List.foldlM_cons, ← takeBlock_replicas hinj h hi]
    cases ht : takeBlock P W cfg params s i with
    | none => rfl
    | some t => exact takeBlocks_replicas hinj his (replicaInv_takeBlock h hi.deploys ht)

/-- **Replica determinism**: two nodes that start from one genesis file and take the same blocks are
in the same state after each of them. -/
theorem replicas_agree (hinj : Set.InjOn P.blake3 codes) {g : GenesisConfig}
    {s s' : ChainState Database} (hs : Started P g s) (hs' : Started P g s')
    {is is' : List (EngineInput W)} (h : List.Forall₂ (SameInput P W cfg codes) is is') (n : ℕ) :
    takeBlocks P W cfg params s (is.take n) = takeBlocks P W cfg params s' (is'.take n) := by
  have hstart : s = s' := by
    obtain ⟨d, hd⟩ := hs
    obtain ⟨d', hd'⟩ := hs'
    rw [hd] at hd'
    exact Option.some.inj (Except.ok.inj (Prod.mk.inj hd').1)
  rw [← hstart]
  exact takeBlocks_replicas hinj (List.forall₂_take n h) (replicaInv_started hs)

/-! ### A deployment on two replicas -/

namespace Small

def deployBlock : Block := next genesisBlock [tx 2 0 .contractDeploy none 0 Vm.Small.zeroCode]

def coldNode : EngineInput Wasmtime.small :=
  { ord := fun _ => .listed, cache := ∅, block := deployBlock, now := 0 }

def warmNode : EngineInput Wasmtime.small where
  ord _ := ⟨⟨List.reverse, List.reverse_perm⟩, ⟨List.reverse, List.reverse_perm⟩,
    ⟨List.reverse, List.reverse_perm⟩⟩
  cache := (∅ : HashMap Blake3Hash Vm.Small.Module).insert
    (Primitives.small.blake3 Vm.Small.zeroCode) .zero
  block := deployBlock
  now := 7

theorem sameInput_nodes :
    SameInput .small .small .default {Vm.Small.zeroCode} coldNode warmNode where
  block := rfl
  deploys stx hstx _ := by
    obtain rfl := List.mem_singleton.mp hstx
    rfl
  cacheLeft := coherent_empty
  cacheRight := coherent_empty.insert (Set.mem_singleton _) rfl

end Small

theorem replicas_agree_deploy :
    (takeBlocks .small .small .default Small.genesis.consensusParams Small.start
      [Small.coldNode]).map (·.height) = some 1 ∧
    takeBlocks .small .small .default Small.genesis.consensusParams Small.start [Small.coldNode] =
      takeBlocks .small .small .default Small.genesis.consensusParams Small.start
        [Small.warmNode] :=
  ⟨by decide +kernel,
    replicas_agree (Set.injOn_singleton _ _) Small.started Small.started
      (.cons Small.sameInput_nodes .nil) 1⟩

end Rustchain.Consensus
