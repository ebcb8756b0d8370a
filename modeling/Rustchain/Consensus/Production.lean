import Rustchain.Consensus.Charges
import Rustchain.Consensus.EngineRuns
import Rustchain.Consensus.Replicas

/-! # The producer and its followers

A producer applies the block that it has built, with no gas in the header. Only then it fills in the
gas, signs the block and sends it, and a follower applies what was sent. Both charge the
transactions alike, but the headers that they keep as their heads differ in `gas_used`: the hashes
of the heads agree if and only if nothing was charged. -/

namespace Rustchain.Consensus

open Rustchain.Core Storage Vm Lib.Machine Lib.Maps Lib.Runs ProposerSelection

variable {P : Primitives} {W : Wasmtime} {cfg : VmConfig} {codes : Set Bytes}

/-! ### Charges on two nodes -/

/-- Receipts with the same gas, one by one. -/
def SameGas (rs rs' : List TransactionReceipt) : Prop :=
  rs.map (·.gasUsed) = rs'.map (·.gasUsed)

/-- **The transactions of a block on two nodes** are charged alike, if contracts cannot tell the
blocks apart. -/
theorem executeTxs_sameGas (hinj : Set.InjOn P.blake3 codes) {s s' : ChainState Database}
    (h : SameLedger s s') (hcoded : Coded P codes s.storage s.storage.accounts)
    {cache cache' : HashMap Blake3Hash W.Module} (hc : Coherent P W cfg codes cache)
    (hc' : Coherent P W cfg codes cache') {block block' : Block} (hb : SameBlock block block')
    {txs : List SignedTransaction} (hd : DeploysFrom codes txs) {ord : ℕ → HashOrders}
    {l : Loop W.Module Database}
    (hl : Exec.executeTxs P W cfg ord block 0 txs (s.toLoop cache) = some ((), l))
    (ord' : ℕ → HashOrders) :
    Coherent P W cfg codes l.moduleCache ∧
      ∃ l', Exec.executeTxs P W cfg ord' block' 0 txs (s'.toLoop cache') = some ((), l') ∧
        SameGas l.receipts l'.receipts := by
  have htwin : CodedTwin P W cfg codes SameGas s.storage s'.storage (s.toLoop cache)
      (s'.toLoop cache') := h.codedTwin hcoded hc hc' rfl
  have hpush : ∀ stx ∈ txs, ∀ n, Pushes P SameGas block block' (0 + n) (0 + n) stx := by
    intro stx _ n rs rs' o hrs
    unfold SameGas at hrs ⊢
    rw [List.map_append, List.map_append, hrs]
    rfl
  obtain ⟨_, l', hl', -, hT⟩ : ∃ u l', Exec.executeTxs P W cfg ord' block' 0 txs
      (s'.toLoop cache') = some (u, l') ∧ () = u ∧ CodedTwin P W cfg codes SameGas s.storage
        s'.storage l l' :=
    (twin_executeTxs hinj (blockFree_of_same W trivial) (fun _ => hb)
      (fun stx hstx => h.agrees hb.1 (hd stx hstx)) hpush).matched htwin hl
  exact ⟨hT.cacheLeft, l', hl', hT.receipts⟩

namespace ConsensusEngine

/-! ### Engines whose contracts are known -/

/-- The code of every contract account is stored and is in `codes`, and the cache holds modules of
such code. -/
structure Replica (cfg : VmConfig) (codes : Set Bytes) (e : ConsensusEngine P W Database) :
    Prop where
  chain : ReplicaInv P codes e.chainState
  cache : Coherent P W cfg codes e.moduleCache

/-- What the block of a call deploys is in `codes`. -/
def Deploys (codes : Set Bytes) (e : ConsensusEngine P W Database) (op : Op) : Prop :=
  ∀ su block, e.blockOf op = some (su, block) → DeploysFrom codes block.transactions

variable {e : ConsensusEngine P W Database}

theorem replica_new {config : ConsensusConfig} {g : GenesisConfig} {d d' : Database}
    {cache : HashMap Blake3Hash W.Module}
    (hd : d = .empty ∨ ∃ s, ReplicaInv P codes s ∧ s.storage = d)
    (hc : Coherent P W cfg codes cache) (h : new P W config g d cache = (.ok (some e), d')) :
    e.Replica cfg codes := by
  obtain ⟨s, hs, rfl⟩ := new_ok h
  refine ⟨?_, hc⟩
  rcases hd with rfl | ⟨t, ht, rfl⟩
  · exact replicaInv_started ⟨d', hs⟩
  · refine ⟨nodeInv_fromGenesis P hs ht.keyed, ?_⟩
    show Coded P codes s.storage s.storage.accounts
    rw [storage_restart P ht.toNodeInv hs]
    exact ht.coded

variable {block : Block} {rs : List TransactionReceipt} {su : Surroundings}

theorem replica_applied (h : e.Replica cfg codes) (hinj : Set.InjOn P.blake3 codes)
    (hd : DeploysFrom codes block.transactions) {a : Applied W.Module Database}
    (ha : applyBlock P W cfg su.ord e.moduleCache e.chainState block = some a)
    (hok : a.result = .ok rs) : ReplicaInv P codes a.state ∧ Coherent P W cfg codes a.cache := by
  obtain ⟨-, -, l, hl, rfl⟩ := applyBlock_ok ha hok
  refine ⟨replicaInv_committed h.chain hd hl _, ?_⟩
  exact (executeTxs_sameGas hinj (.refl _) h.chain.coded h.cache h.cache ⟨rfl, rfl, rfl⟩ hd hl
    su.ord).1

theorem replica_call (hinj : Set.InjOn P.blake3 codes) {e e' : ConsensusEngine P W Database}
    {op : Op} (h : e.Replica cfg codes) (hd : Deploys codes e op) (hcall : Call cfg e op e') :
    e'.Replica cfg codes := by
  have hkeeps : ReplicaInv P codes e'.chainState ∧ Coherent P W cfg codes e'.moduleCache :=
    hcall.keeps (I := fun s cache => ReplicaInv P codes s ∧ Coherent P W cfg codes cache)
      ⟨h.chain, h.cache⟩
      (fun su block a rs hblock ha hok params now =>
        (replica_applied h hinj (hd su block hblock) ha hok).imp_left fun hs =>
          replicaInv_maybeAdvanceEpoch hs params now)
      fun v => ⟨⟨⟨h.chain.keyed, h.chain.jailFree, h.chain.hasGenesis⟩, h.chain.coded⟩, h.cache⟩
  exact ⟨hkeeps.1, hkeeps.2⟩

theorem replica_run (hinj : Set.InjOn P.blake3 codes) {e₀ e : ConsensusEngine P W Database}
    {ops : List Op} (h : e₀.Replica cfg codes) (hrun : Run (Call cfg) (Deploys codes) e₀ ops e) :
    e.Replica cfg codes :=
  hrun.invariant (I := Replica cfg codes) h fun _ _ _ ht hd hcall => replica_call hinj ht hd hcall

/-! ### The block that is sent -/

/-- What is known of a producer that sent a block: the draft was applied and is its head. -/
structure Sending (cfg : VmConfig) (su : Surroundings) (keypair : KeyPair)
    (p : ConsensusEngine P W Database) (r : EngineResult P W Database) (block : Block)
    (l : Loop W.Module Database) : Prop where
  proposes : p.Proposes keypair
  onHead : Extends P p.chainState (p.draft su keypair)
  run : Exec.executeTxs P W cfg su.ord (p.draft su keypair) 0 (p.selected su)
    (p.chainState.toLoop p.moduleCache) = some ((), l)
  sent : block = p.sent su keypair l.receipts
  head : r.engine.chainState.head = p.draft su keypair
  overflow : r.overflow = false → (sumU 64 (l.receipts.map (·.gasUsed))).ovf = false

theorem head_maybeAdvanceEpoch (params : ConsensusParams) (now : ℕ) (s : ChainState Database) :
    (maybeAdvanceEpoch params now s).val.2.head = s.head := by
  rw [maybeAdvanceEpoch_eq]
  split_ifs <;> rfl

variable {keypair : KeyPair} {r : EngineResult P W Database}

theorem sending_of_newBlock {p : ConsensusEngine P W Database}
    (h : p.tryProduceBlock cfg su keypair = some r) (hb : .newBlock block ∈ r.events) :
    ∃ l, Sending cfg su keypair p r block l := by
  cases tryProduceBlock_cases h with
  | idle _ => cases hb
  | produced hp ha hok hov =>
    obtain ⟨hparent, hnumber, l, hl, rfl⟩ := applyBlock_ok ha hok
    obtain rfl := Except.ok.inj hok
    exact ⟨l, hp, ⟨hparent, hnumber⟩, hl, newBlock_mem.mp hb, head_maybeAdvanceEpoch _ _ _,
      fun h => (hov h).2⟩

variable (p : ConsensusEngine P W Database)

theorem unsigned_seal (su : Surroundings) (keypair : KeyPair) :
    (sealBlock P (p.draft su keypair) 0 keypair).header.unsigned =
      (p.draft su keypair).header.unsigned := rfl

theorem sameBlock_sent (su : Surroundings) (keypair : KeyPair) (rs : List TransactionReceipt) :
    SameBlock (p.draft su keypair) (p.sent su keypair rs) :=
  ⟨rfl, rfl, rfl⟩

theorem transactionsRoot_draft (su : Surroundings) (keypair : KeyPair) :
    (p.draft su keypair).computeTransactionsRoot P =
      (p.draft su keypair).header.transactionsRoot := by
  unfold Block.computeTransactionsRoot
  split_ifs with h
  · have hnil : p.selected su = [] := List.isEmpty_iff.mp h
    unfold draft buildBlock
    rw [hnil]
    rfl
  · rfl

theorem checked_sent (hsig : ∀ (k : KeyPair) m, P.verify (k.publicKey P) m (k.sign P m) = true)
    {p f : ConsensusEngine P W Database} (hstate : f.chainState = p.chainState)
    (hp : p.Proposes keypair) (rs : List TransactionReceipt) : f.Checked (p.sent su keypair rs) ↔
      gasTotal rs ≤ p.config.gasLimitPerBlock ∧ (p.selected su).length ≤ maxBlockTransactions := by
  have hbasic : (p.sent su keypair rs).validateBasic P = .ok () ↔
      gasTotal rs ≤ p.config.gasLimitPerBlock ∧
        (p.selected su).length ≤ maxBlockTransactions := by
    rw [Block.validateBasic_ok, BlockHeader.validateBasic_ok]
    constructor
    · rintro ⟨⟨-, -, hgas, -⟩, hlen, -⟩
      exact ⟨hgas, hlen⟩
    · rintro ⟨hgas, hlen⟩
      exact ⟨⟨rfl, Nat.zero_le _, hgas, rfl⟩, hlen, p.transactionsRoot_draft su keypair,
        fun tx htx => TransactionPool.selectTransactions_verified _ _ _ _ htx⟩
  constructor
  · exact fun h => hbasic.mp h.basic
  · intro h
    refine ⟨hbasic.mpr h, ?_, hsig keypair _⟩
    rw [hstate]
    exact hp

/-! ### Reception -/

theorem onBlockReceived_some {a : Applied W.Module Database}
    (ha : applyBlock P W cfg su.ord e.moduleCache e.chainState block = some a) :
    ∃ r, e.onBlockReceived cfg su block = some r := by
  unfold onBlockReceived
  dsimp only
  split
  · exact ⟨_, rfl⟩
  · split
    · exact ⟨_, rfl⟩
    · unfold applyReceived
      rw [remember_chainState, remember_moduleCache, ha]
      exact ⟨_, rfl⟩

/-- No other block of the same validator for the same height was seen before. -/
def Unseen (e : ConsensusEngine P W Database) (block : Block) : Prop :=
  ∀ prevHash, e.seenBlocks.lookup (seenKey block) = some prevHash → prevHash = block.hash P

theorem unseen_iff : e.Unseen block ↔ e.evidenceOf block = none := by
  rcases e.evidenceOf_eq block with ⟨hno, hsame⟩ | ⟨prevHash, hseen, hne, hev⟩
  · exact ⟨fun _ => hno, fun _ => hsame⟩
  · refine ⟨fun h => absurd (h prevHash hseen) hne, fun h => ?_⟩
    rw [hev] at h
    cases h

/-- **A block that extends the head** is accepted if and only if it passes the checks and is no
evidence; it is the head then. -/
theorem accepted_iff (h : e.onBlockReceived cfg su block = some r)
    (hext : Extends P e.chainState block) :
    (r.result = .ok () ↔ e.Checked block ∧ e.Unseen block) ∧
      (r.result = .ok () → r.engine.chainState.head = block) := by
  rw [unseen_iff]
  cases onBlockReceived_cases h with
  | refused hno => exact ⟨⟨(nomatch ·), fun hc => absurd hc.1 hno⟩, (nomatch ·)⟩
  | detected hc hseen hne =>
    refine ⟨⟨(nomatch ·), fun ⟨_, hno⟩ => absurd (unseen_iff.mpr hno _ hseen) hne⟩, (nomatch ·)⟩
  | apart _ _ hnot => exact absurd hext hnot
  | accepted hc hno ha hok _ =>
    refine ⟨⟨fun _ => ⟨hc, hno⟩, fun _ => rfl⟩, fun _ => ?_⟩
    obtain ⟨-, -, l, -, rfl⟩ := applyBlock_ok ha hok
    exact head_maybeAdvanceEpoch _ _ _

/-! ### Agreement -/

theorem gasTotal_eq_zero (h : (sumU 64 (rs.map (·.gasUsed))).ovf = false) :
    gasTotal rs = 0 ↔ ∀ r ∈ rs, r.gasUsed = 0 := by
  unfold gasTotal
  rw [sumU_val h, List.sum_eq_zero_iff_forall_eq_nat, List.forall_mem_map]

theorem hash_sent_iff {p : ConsensusEngine P W Database}
    (hfree : BlockHeader.CollisionFree P {(p.sent su keypair rs).header,
      (p.draft su keypair).header}) :
    (p.sent su keypair rs).hash P = (p.draft su keypair).hash P ↔ gasTotal rs = 0 := by
  constructor
  · intro h
    have hunsigned := hfree _ (.inl rfl) _ (.inr rfl) h
    exact congrArg BlockHeader.gasUsed hunsigned
  · intro h
    unfold sent sealBlock
    rw [h]
    rfl

theorem applyBlock_sent (hinj : Set.InjOn P.blake3 codes) {p f : ConsensusEngine P W Database}
    (hp : p.Replica cfg codes) (hf : f.Replica cfg codes) (hstate : f.chainState = p.chainState)
    {l : Loop W.Module Database} (h : Sending cfg su keypair p r block l)
    (hd : DeploysFrom codes block.transactions) (su' : Surroundings) :
    Extends P f.chainState block ∧
      ∃ a, applyBlock P W cfg su'.ord f.moduleCache f.chainState block = some a := by
  have hext : Extends P f.chainState block := by
    rw [hstate, h.sent]
    exact h.onHead
  obtain rfl := h.sent
  have hd : DeploysFrom codes (p.selected su) := hd
  obtain ⟨-, l', hl', -⟩ := executeTxs_sameGas hinj (.refl p.chainState) hp.chain.coded hp.cache
    hf.cache (sameBlock_sent p su keypair l.receipts) hd h.run su'.ord
  refine ⟨hext, ?_⟩
  rw [applyBlock_of_extends hext, hstate]
  exact ⟨_, congrArg (Option.map _) hl'⟩

/-- **Agreement of the producer and a follower.** A producer and a follower have the same chain
state, and the producer sends a block. The follower accepts it and then has a head with the hash of
the producer's own head, if and only if the block holds no more transactions than a block may, the
follower has seen no other block of the producer for the height, and every transaction is charged
nothing at its turn. -/
theorem producer_follower_agreement (P : Primitives) (W : Wasmtime) (cfg : VmConfig)
    (hsig : ∀ (k : KeyPair) m, P.verify (k.publicKey P) m (k.sign P m) = true) {codes : Set Bytes}
    (hinj : Set.InjOn P.blake3 codes) {p f : ConsensusEngine P W Database}
    (hp : p.Replica cfg codes) (hf : f.Replica cfg codes) (hstate : f.chainState = p.chainState)
    {su : Surroundings} {keypair : KeyPair} {r : EngineResult P W Database} {block : Block}
    (hproduce : p.tryProduceBlock cfg su keypair = some r) (hblock : .newBlock block ∈ r.events)
    (hov : r.overflow = false) (hd : DeploysFrom codes block.transactions)
    (hfree : BlockHeader.CollisionFree P {block.header, r.engine.chainState.head.header})
    (su' : Surroundings) : ∃ r', f.onBlockReceived cfg su' block = some r' ∧
      (r'.result = .ok () ∧
          r'.engine.chainState.head.hash P = r.engine.chainState.head.hash P ↔
        (p.selected su).length ≤ maxBlockTransactions ∧ f.Unseen block ∧
          Exec.AllUncharged P W cfg su.ord (p.draft su keypair) 0 (p.selected su)
            (p.chainState.toLoop p.moduleCache)) := by
  obtain ⟨l, h⟩ := sending_of_newBlock hproduce hblock
  obtain ⟨hext, a, ha⟩ := applyBlock_sent hinj hp hf hstate h hd su'
  obtain ⟨r', hr'⟩ := onBlockReceived_some ha
  refine ⟨r', hr', ?_⟩
  have hsum := h.overflow hov
  -- nothing is charged exactly if the header got no gas
  have hcharges : gasTotal l.receipts = 0 ↔ Exec.AllUncharged P W cfg su.ord (p.draft su keypair) 0
      (p.selected su) (p.chainState.toLoop p.moduleCache) := by
    have hlimit : ∀ stx ∈ p.selected su, stx.transaction.gasLimit ≠ 0 := fun stx hstx =>
      (SignedTransaction.verify_ok P
        (TransactionPool.selectTransactions_verified _ _ _ _ hstx)).1
    obtain ⟨rs, hrs, hall⟩ := Exec.executeTxs_uncharged h.run hlimit
    have hreceipts : l.receipts = rs := hrs
    rw [gasTotal_eq_zero hsum, hreceipts, hall]
  obtain ⟨haccept, hhead⟩ := accepted_iff hr' hext
  obtain rfl := h.sent
  have hheads : (r'.result = .ok () → (r'.engine.chainState.head.hash P =
      r.engine.chainState.head.hash P ↔ gasTotal l.receipts = 0)) := fun hok => by
    rw [hhead hok, h.head]
    rw [h.head] at hfree
    exact hash_sent_iff hfree
  rw [← hcharges]
  constructor
  · rintro ⟨hok, hhash⟩
    obtain ⟨hc, hunseen⟩ := haccept.mp hok
    exact ⟨((checked_sent hsig hstate h.proposes _).mp hc).2, hunseen, (hheads hok).mp hhash⟩
  · rintro ⟨hlen, hunseen, hzero⟩
    have hc : f.Checked (p.sent su keypair l.receipts) :=
      (checked_sent hsig hstate h.proposes _).mpr ⟨by rw [hzero]; exact Nat.zero_le _, hlen⟩
    have hok := haccept.mpr ⟨hc, hunseen⟩
    exact ⟨hok, (hheads hok).mpr hzero⟩

end ConsensusEngine

/-! ### A block with a deployment and one with a payment -/

namespace Small

open ConsensusEngine

def pooled (stx : SignedTransaction) : ConsensusEngine .small .small Database :=
  (engine.onTransactionReceived stx 0).engine

def deployment : SignedTransaction := tx 2 0 .contractDeploy none 0 Vm.Small.zeroCode

def sentFor (stx : SignedTransaction) (gasUsed : ℕ) : Block :=
  sealBlock .small ((pooled stx).draft surroundings (KeyPair.small 1)) gasUsed (KeyPair.small 1)

theorem transactions_sentFor (stx : SignedTransaction) (gasUsed : ℕ) :
    (sentFor stx gasUsed).transactions = (pooled stx).selected surroundings := rfl

theorem replica_pooled (stx : SignedTransaction) (codes : Set Bytes) :
    (pooled stx).Replica .default codes ∧ engine.Replica .default codes ∧
      engine.chainState = (pooled stx).chainState := by
  have hengine : engine.Replica .default codes := ⟨replicaInv_started started, coherent_empty⟩
  unfold pooled onTransactionReceived
  cases engine.txPool.insert stx 0 with
  | error e => exact ⟨hengine, hengine, rfl⟩
  | ok pool => exact ⟨⟨hengine.chain, hengine.cache⟩, hengine, rfl⟩

theorem engine_unseen (block : Block) : engine.Unseen block := by
  intro prevHash h
  have hempty : engine.seenBlocks = ∅ := rfl
  rw [hempty, AList.lookup_empty] at h
  cases h

theorem deployment_free : Exec.UnchargedRun .small .small .default
    ((pooled deployment).draft surroundings (KeyPair.small 1)) deployment
    ((pooled deployment).chainState.toLoop (pooled deployment).moduleCache) := by
  have hrun : (deployContract .small .small .default deployment.transaction.data []
      (Exec.vmStart .small ((pooled deployment).draft surroundings (KeyPair.small 1)) deployment
        Address.zero ((pooled deployment).chainState.toLoop (pooled deployment).moduleCache))).map
      (fun x => x.1.toOption.map (·.gasUsed)) = some (some 0) := by decide +kernel
  obtain ⟨⟨res, s⟩, hvm, hres⟩ := Option.map_eq_some_iff.mp hrun
  obtain ⟨r, hr, hgas⟩ := Option.map_eq_some_iff.mp hres
  cases res with
  | error e => cases hr
  | ok r' =>
    obtain rfl := Option.some.inj hr
    exact .deployed rfl hvm hgas

theorem tip_produced : ∃ r,
    (pooled tip).tryProduceBlock .default surroundings (KeyPair.small 1) = some r ∧
    .newBlock (sentFor tip 21000) ∈ r.events ∧ r.overflow = false ∧
    r.engine.chainState.head = (pooled tip).draft surroundings (KeyPair.small 1) := by
  obtain ⟨r, hr, hp⟩ := handle_some (e := pooled tip)
    (p := fun r => .newBlock (sentFor tip 21000) ∈ r.events ∧ r.overflow = false ∧
      r.engine.chainState.head = (pooled tip).draft surroundings (KeyPair.small 1))
    (show ((pooled tip).handle .default (.produce surroundings (KeyPair.small 1))).map _ = _ by
      decide +kernel)
  exact ⟨r, hr, hp⟩

theorem tip_received : ∃ r,
    engine.onBlockReceived .default surroundings (sentFor tip 21000) = some r ∧
    r.result = .ok () ∧ r.engine.chainState.head = sentFor tip 21000 := by
  obtain ⟨r, hr, hp⟩ := handle_some (e := engine)
    (p := fun r => r.result = .ok () ∧ r.engine.chainState.head = sentFor tip 21000)
    (show (engine.handle .default (.receive surroundings (sentFor tip 21000))).map _ = _ by
      decide +kernel)
  exact ⟨r, hr, hp⟩

end Small

section

open ConsensusEngine

theorem free_block_agrees : ∃ r r', (Small.pooled Small.deployment).tryProduceBlock .default
      Small.surroundings (KeyPair.small 1) = some r ∧
    .newBlock (Small.sentFor Small.deployment 0) ∈ r.events ∧
    Small.engine.onBlockReceived .default Small.surroundings (Small.sentFor Small.deployment 0) =
      some r' ∧ r'.result = .ok () ∧
    r'.engine.chainState.head.hash .small = r.engine.chainState.head.hash .small := by
  obtain ⟨r, hr, hevents, hov, hhead⟩ := Small.handle_some (e := Small.pooled Small.deployment)
    (p := fun r => .newBlock (Small.sentFor Small.deployment 0) ∈ r.events ∧ r.overflow = false ∧
      r.engine.chainState.head =
        (Small.pooled Small.deployment).draft Small.surroundings (KeyPair.small 1))
    (show ((Small.pooled Small.deployment).handle .default
      (.produce Small.surroundings (KeyPair.small 1))).map _ = _ by decide +kernel)
  have hproduce : (Small.pooled Small.deployment).tryProduceBlock .default Small.surroundings
    (KeyPair.small 1) = some r := hr
  obtain ⟨hp, hf, hstate⟩ := Small.replica_pooled Small.deployment {Vm.Small.zeroCode}
  have hfree : BlockHeader.CollisionFree .small {(Small.sentFor Small.deployment 0).header,
      r.engine.chainState.head.header} := by
    rw [hhead]
    exact BlockHeader.collisionFree_of_unsigned .small (unsigned_seal _ _ _)
  have hselected : (Small.pooled Small.deployment).selected Small.surroundings =
    [Small.deployment] := by decide +kernel
  have hd : DeploysFrom {Vm.Small.zeroCode} (Small.sentFor Small.deployment 0).transactions := by
    intro stx hstx _
    rw [Small.transactions_sentFor, hselected] at hstx
    obtain rfl := List.mem_singleton.mp hstx
    rfl
  obtain ⟨r', hr', hiff⟩ := producer_follower_agreement .small .small .default
    (fun k m => decide_eq_true rfl) (Set.injOn_singleton _ _) hp hf hstate hproduce hevents hov hd
    hfree Small.surroundings
  refine ⟨r, r', hproduce, hevents, hr', hiff.mpr ⟨by decide +kernel, Small.engine_unseen _, ?_⟩⟩
  rw [hselected]
  exact ⟨fun _ => Small.deployment_free, fun _ _ => trivial⟩

/-- A payment is charged, and the two heads have different hashes. -/
theorem charged_block_splits : ∃ r r', (Small.pooled Small.tip).tryProduceBlock .default
      Small.surroundings (KeyPair.small 1) = some r ∧
    .newBlock (Small.sentFor Small.tip 21000) ∈ r.events ∧
    Small.engine.chainState = (Small.pooled Small.tip).chainState ∧
    Small.engine.onBlockReceived .default Small.surroundings (Small.sentFor Small.tip 21000) =
      some r' ∧ r'.result = .ok () ∧
    r'.engine.chainState.head.hash .small ≠ r.engine.chainState.head.hash .small := by
  obtain ⟨r, hr, hevents, -, hhead⟩ := Small.tip_produced
  obtain ⟨r', hr', hok, hhead'⟩ := Small.tip_received
  refine ⟨r, r', hr, hevents, (Small.replica_pooled Small.tip ∅).2.2, hr', hok, ?_⟩
  rw [hhead, hhead']
  decide +kernel

end

end Rustchain.Consensus
