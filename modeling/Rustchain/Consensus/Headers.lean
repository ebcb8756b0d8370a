import Rustchain.Consensus.Production

/-! # What a header says

Production writes into a header the chain id of its configuration, the number of the current epoch
and the gas that the transactions were charged. Reception checks none of these against the chain or
against the execution, only that the gas is within the limit that the header states. So a header
tells the truth if it comes from an engine with the same ledger, for the transactions of its chain,
and a proposer can sign any other one. -/

namespace Rustchain.Consensus

open Rustchain.Core Storage Vm Lib.Machine Lib.Maps Lib.Runs

variable {P : Primitives} {W : Wasmtime} {cfg : VmConfig} {codes : Set Bytes}

/-- The header of a block agrees with the chain, with the epoch and with the receipts of the block.
-/
structure HeaderAgrees (chainId : ℕ) (epoch : EpochInfo) (block : Block)
    (rs : List TransactionReceipt) : Prop where
  chain : block.header.chainId = chainId
  transactions : ∀ tx ∈ block.transactions, tx.transaction.chainId = chainId
  epoch : block.header.epoch = epoch.epochNumber
  gas : block.header.gasUsed = (rs.map (·.gasUsed)).sum
  limit : (rs.map (·.gasUsed)).sum ≤ block.header.gasLimit

namespace ConsensusEngine

theorem Checked.gas_le {e : ConsensusEngine P W Database} {block : Block} (h : e.Checked block) :
    block.header.gasUsed ≤ block.header.gasLimit := by
  obtain ⟨hheader, -⟩ := (Block.validateBasic_ok P).mp h.basic
  exact ((BlockHeader.validateBasic_ok P).mp hheader).2.2.1

theorem checked_of_ok {e : ConsensusEngine P W Database} {su : Surroundings} {block : Block}
    {r : EngineResult P W Database} (h : e.onBlockReceived cfg su block = some r)
    (hok : r.result = .ok ()) : e.Checked block := by
  cases onBlockReceived_cases h with
  | refused _ => cases hok
  | detected _ _ _ => cases hok
  | apart _ _ _ => cases hok
  | accepted hc _ _ _ _ => exact hc

theorem gas_sent (hinj : Set.InjOn P.blake3 codes) {p e : ConsensusEngine P W Database}
    (hp : p.Replica cfg codes) (he : e.Replica cfg codes)
    (hsame : SameLedger p.chainState e.chainState) {su su' : Surroundings} {keypair : KeyPair}
    {r : EngineResult P W Database} {block : Block} {l : Loop W.Module Database}
    (h : Sending cfg su keypair p r block l) (hov : r.overflow = false)
    (hd : DeploysFrom codes block.transactions) {a : Applied W.Module Database}
    {rs : List TransactionReceipt}
    (ha : applyBlock P W cfg su'.ord e.moduleCache e.chainState block = some a)
    (hok : a.result = .ok rs) : block.header.gasUsed = (rs.map (·.gasUsed)).sum := by
  obtain ⟨-, -, l₁, hl₁, rfl⟩ := applyBlock_ok ha hok
  obtain rfl := Except.ok.inj hok
  obtain rfl := h.sent
  have hd : DeploysFrom codes (p.selected su) := hd
  obtain ⟨-, l₂, hl₂, hgas⟩ := executeTxs_sameGas hinj hsame hp.chain.coded hp.cache he.cache
    (sameBlock_sent p su keypair l.receipts) hd h.run su'.ord
  obtain ⟨-, rfl⟩ := Prod.mk.inj (Option.some.inj (hl₁.symm.trans hl₂))
  show gasTotal l.receipts = _
  rw [gasTotal, sumU_val (h.overflow hov), hgas]

/-- **The headers of accepted blocks.** Both engines are on runs that deploy known code, and they
have the same ledger. Of a block that the one sends and the other accepts, the header agrees with
the chain and with the execution, if and only if the sender is configured with the id of the chain
and has selected transactions of that chain only. -/
theorem accepted_header_agrees (P : Primitives) (W : Wasmtime) (cfg : VmConfig) {codes : Set Bytes}
    (hinj : Set.InjOn P.blake3 codes) {p₀ p e₀ e : ConsensusEngine P W Database}
    {ops ops' : List Op} (hp₀ : p₀.Replica cfg codes)
    (hp : Run (Call cfg) (Deploys codes) p₀ ops p) (he₀ : e₀.Replica cfg codes)
    (he : Run (Call cfg) (Deploys codes) e₀ ops' e)
    (hsame : SameLedger p.chainState e.chainState) {su su' : Surroundings} {keypair : KeyPair}
    {r r' : EngineResult P W Database} {block : Block}
    (hproduce : p.tryProduceBlock cfg su keypair = some r) (hblock : .newBlock block ∈ r.events)
    (hov : r.overflow = false) (hd : DeploysFrom codes block.transactions)
    (hreceive : e.onBlockReceived cfg su' block = some r') (hok : r'.result = .ok ())
    {a : Applied W.Module Database} {rs : List TransactionReceipt}
    (ha : applyBlock P W cfg su'.ord e.moduleCache e.chainState block = some a)
    (hrs : a.result = .ok rs) (chainId : ℕ) :
    HeaderAgrees chainId e.chainState.currentEpoch block rs ↔
      p.config.chainId = chainId ∧ ∀ tx ∈ p.selected su, tx.transaction.chainId = chainId := by
  obtain ⟨l, h⟩ := sending_of_newBlock hproduce hblock
  have hgas := gas_sent hinj (replica_run hinj hp₀ hp) (replica_run hinj he₀ he) hsame h hov hd ha
    hrs
  have hlimit := (checked_of_ok hreceive hok).gas_le
  rw [hgas] at hlimit
  have hepoch : block.header.epoch = e.chainState.currentEpoch.epochNumber := by
    rw [h.sent, ← hsame.epoch]
    rfl
  constructor
  · intro hagrees
    have hchain := hagrees.chain
    have htxs := hagrees.transactions
    rw [h.sent] at hchain htxs
    exact ⟨hchain, htxs⟩
  · rintro ⟨hchain, htxs⟩
    refine ⟨?_, ?_, hepoch, hgas, hlimit⟩
    · rw [h.sent]
      exact hchain
    · rw [h.sent]
      exact htxs

end ConsensusEngine

namespace Small

def foreignPayment : SignedTransaction :=
  .new .small ⟨2, 0, (KeyPair.small 2).address .small, some ((KeyPair.small 1).address .small), 7,
    .transfer, 50000, 1, [], 0⟩ (KeyPair.small 2)

def foreignBlock : Block :=
  { next genesisBlock [foreignPayment] with
    header := { (next genesisBlock [foreignPayment]).header with
      chainId := 2, epoch := 7, gasUsed := 5, gasLimit := 5 }.sign .small (KeyPair.small 1) }

end Small

section

open ConsensusEngine

theorem payment_header_agrees : ∃ a rs,
    Small.apply Small.start (Small.sentFor Small.tip 21000) = some a ∧ a.result = .ok rs ∧
    HeaderAgrees 1 Small.start.currentEpoch (Small.sentFor Small.tip 21000) rs := by
  obtain ⟨r, hproduce, hevents, hov, -⟩ := Small.tip_produced
  obtain ⟨r', hreceive, hok, -⟩ := Small.tip_received
  obtain ⟨a, rs, ha, hrs, -⟩ := Small.apply_ok Small.start (Small.sentFor Small.tip 21000)
    (p := fun _ => True) (by decide +kernel)
  obtain ⟨hp, he, -⟩ := Small.replica_pooled Small.tip ∅
  have hsame : SameLedger (Small.pooled Small.tip).chainState Small.engine.chainState := by
    rw [(Small.replica_pooled Small.tip ∅).2.2]
    exact .refl _
  have hselected : (Small.pooled Small.tip).selected Small.surroundings = [Small.tip] := by
    decide +kernel
  have hd : DeploysFrom ∅ (Small.sentFor Small.tip 21000).transactions := by
    rw [Small.transactions_sentFor, hselected]
    intro stx hstx htype
    obtain rfl := List.mem_singleton.mp hstx
    cases htype
  refine ⟨a, rs, ha, hrs, (accepted_header_agrees .small .small .default (Set.injOn_empty _) hp .nil
    he .nil hsame hproduce hevents hov hd hreceive hok ha hrs 1).mpr ⟨by decide +kernel, ?_⟩⟩
  rw [hselected]
  intro stx hstx
  obtain rfl := List.mem_singleton.mp hstx
  rfl

/-- A block of another chain is accepted. -/
theorem foreign_block_accepted : ∃ r a rs,
    Created .small .small .default Small.config Small.genesis Small.engine ∧
    Small.engine.onBlockReceived .default Small.surroundings Small.foreignBlock = some r ∧
    r.result = .ok () ∧ Small.apply Small.start Small.foreignBlock = some a ∧ a.result = .ok rs ∧
    Small.genesis.chainId = 1 ∧ Small.foreignBlock.header.chainId = 2 ∧
    Small.foreignBlock.transactions.map (·.transaction.chainId) = [2] ∧
    Small.start.currentEpoch.epochNumber = 0 ∧ Small.foreignBlock.header.epoch = 7 ∧
    (rs.map (·.gasUsed)).sum = 21000 ∧ Small.foreignBlock.header.gasUsed = 5 ∧
    Small.foreignBlock.header.gasLimit = 5 := by
  obtain ⟨r, hr, hok⟩ := Small.handle_some (e := Small.engine) (p := fun r => r.result = .ok ())
    (show (Small.engine.handle .default
      (.receive Small.surroundings Small.foreignBlock)).map _ = _ by decide +kernel)
  obtain ⟨a, rs, ha, hrs, hgas⟩ := Small.apply_ok Small.start Small.foreignBlock
    (p := fun a => a.result.toOption.map (fun rs => (rs.map (·.gasUsed)).sum) = some 21000)
    (by decide +kernel)
  rw [hrs] at hgas
  exact ⟨r, a, rs, Small.engine_created, hr, hok, ha, hrs, rfl, rfl, rfl, rfl, rfl,
    Option.some.inj hgas, rfl, rfl⟩

end

end Rustchain.Consensus
