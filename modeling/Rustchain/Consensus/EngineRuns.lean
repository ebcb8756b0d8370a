import Rustchain.Consensus.Engine
import Rustchain.Consensus.Node

/-! # Runs of the engine

What the calls of the engine do over a database without faults: a received block is turned away by
the checks, is evidence against its validator, does not extend the head, or is applied; a block is
produced or nothing happens. The chain states that an engine goes through are those of a node. -/

namespace Rustchain.Consensus

open Rustchain.Core Storage Vm Lib.Machine Lib.Maps Lib.Runs Lib.Checks ProposerSelection

variable {P : Primitives} {W : Wasmtime} {cfg : VmConfig} {g : GenesisConfig}

namespace ConsensusEngine

/-! ### Calls -/

/-- The block passes the checks of `on_block_received` in this state. -/
structure Checked (e : ConsensusEngine P W Database) (block : Block) : Prop where
  basic : block.validateBasic P = .ok ()
  proposer : (selectProposer P e.chainState.currentEpoch.validatorSet.activeValidators
    (e.chainState.head.hash P) block.header.number).val = .ok block.header.validator
  signed : P.verify block.header.validatorPubkey (block.hash P).asBytes
    block.header.validatorSignature = true

variable {e : ConsensusEngine P W Database}

theorem checkReceived_ok {block : Block} :
    (e.checkReceived block).val = .ok () ↔ e.Checked block := by
  have hsig : (block.header.verifySignature P).mapError ConsensusError.core = .ok () ↔
      P.verify block.header.validatorPubkey (block.hash P).asBytes
        block.header.validatorSignature = true := by
    rw [mapError_eq_ok, BlockHeader.verifySignature, mapError_eq_ok, PublicKey.verify_eq_ok]
    rfl
  unfold checkReceived
  cases hb : block.validateBasic P with
  | error err => exact ⟨(nomatch ·), fun h => by rw [h.basic] at hb; cases hb⟩
  | ok u =>
    dsimp only
    rw [val_bind, val_pure]
    refine Iff.trans bind_eq_ok ?_
    rw [verifyProposer_ok, hsig]
    exact ⟨fun h => ⟨hb, h.1, h.2⟩, fun h => ⟨h.proposer, h.signed⟩⟩

instance (e : ConsensusEngine P W Database) (block : Block) : Decidable (e.Checked block) :=
  decidable_of_iff ((e.checkReceived block).val.toBool = true) <| by
    rw [← checkReceived_ok]
    cases (e.checkReceived block).val with
    | error err => exact ⟨(nomatch ·), (nomatch ·)⟩
    | ok u => exact ⟨fun _ => rfl, fun _ => rfl⟩

/-- The engine once a block was applied and the epoch looked at. -/
def finished (e : ConsensusEngine P W Database) (now : ℕ) (hashes : List Blake3Hash) :
    ConsensusEngine P W Database :=
  { e with
    txPool := e.txPool.pruneCommitted hashes
    chainState := (maybeAdvanceEpoch e.config.consensusParams now e.chainState).val.2
    finality := if e.chainState.height = e.chainState.currentEpoch.endBlock then
        e.finality.updateValidatorSet
          (nextEpoch e.config.consensusParams now e.chainState).val.validatorSet
      else e.finality }

def epochEvents (e : ConsensusEngine P W Database) (now : ℕ) : List ConsensusEvent :=
  if e.chainState.height = e.chainState.currentEpoch.endBlock then
    [.epochChanged (nextEpoch e.config.consensusParams now e.chainState).val]
  else []

theorem finishBlock_eq (e : ConsensusEngine P W Database) (now : ℕ) (hashes : List Blake3Hash) :
    e.finishBlock now hashes = ⟨.ok (), e.finished now hashes, e.epochEvents now,
      (maybeAdvanceEpoch e.config.consensusParams now e.chainState).ovf⟩ := by
  unfold finishBlock finished epochEvents maybeAdvanceEpoch EpochInfo.isLastBlock
  by_cases h : e.chainState.height = e.chainState.currentEpoch.endBlock
  · rw [if_pos h, if_pos h, if_neg (by simp [h])]
    rfl
  · rw [if_neg h, if_neg h, if_pos (by simp [h])]

/-- **What a received block can do.** -/
inductive Reception (cfg : VmConfig) (su : Surroundings) (e : ConsensusEngine P W Database)
    (block : Block) : EngineResult P W Database → Prop
  | refused {err : ConsensusError} {ov : Bool} (h : ¬ e.Checked block) :
      Reception cfg su e block ⟨.error err, e, [], ov⟩
  | detected {prevHash : Blake3Hash} {ov : Bool} (hc : e.Checked block)
      (hseen : e.seenBlocks.lookup (seenKey block) = some prevHash)
      (hne : prevHash ≠ block.hash P) :
      Reception cfg su e block ⟨.error (.invalidBlock "double-sign detected"),
        (e.slash su.slashTime (.doubleSign prevHash (block.hash P) block.header.number)
          block.header.validator).1, [], ov⟩
  | apart {err : ConsensusError} {ov : Bool} (hc : e.Checked block)
      (hno : e.evidenceOf block = none) (hext : ¬ Extends P e.chainState block) :
      Reception cfg su e block ⟨.error err, e.remember block, [], ov⟩
  | accepted {a : Applied W.Module Database} {rs : List TransactionReceipt} {ov : Bool}
      (hc : e.Checked block)
      (hno : e.evidenceOf block = none)
      (ha : applyBlock P W cfg su.ord e.moduleCache e.chainState block = some a)
      (hok : a.result = .ok rs) (hov : ov = false → a.overflow = false) :
      Reception cfg su e block ⟨.ok (), ((e.remember block).applied a).finished su.epochTime
        (block.transactions.map (·.hash)),
          ((e.remember block).applied a).epochEvents su.epochTime ++ [.newBlock block], ov⟩

@[simp] theorem remember_chainState (e : ConsensusEngine P W Database) (block : Block) :
    (e.remember block).chainState = e.chainState := by
  unfold remember
  cases e.seenBlocks.lookup (seenKey block) <;> rfl

@[simp] theorem remember_moduleCache (e : ConsensusEngine P W Database) (block : Block) :
    (e.remember block).moduleCache = e.moduleCache := by
  unfold remember
  cases e.seenBlocks.lookup (seenKey block) <;> rfl

@[simp] theorem remember_finality (e : ConsensusEngine P W Database) (block : Block) :
    (e.remember block).finality = e.finality := by
  unfold remember
  cases e.seenBlocks.lookup (seenKey block) <;> rfl

theorem evidenceOf_eq (e : ConsensusEngine P W Database) (block : Block) :
    e.evidenceOf block = none ∧
        (∀ prevHash, e.seenBlocks.lookup (seenKey block) = some prevHash →
          prevHash = block.hash P) ∨
      ∃ prevHash, e.seenBlocks.lookup (seenKey block) = some prevHash ∧
        prevHash ≠ block.hash P ∧
        e.evidenceOf block =
          some (.doubleSign prevHash (block.hash P) block.header.number) := by
  unfold evidenceOf
  cases hseen : e.seenBlocks.lookup (seenKey block) with
  | none => exact .inl ⟨rfl, fun _ h => (nomatch h)⟩
  | some prevHash =>
    rw [Option.bind_some]
    by_cases hne : prevHash ≠ block.hash P
    · refine .inr ⟨prevHash, rfl, hne, ?_⟩
      rw [if_pos hne, Slasher.detectDoubleSign, if_pos hne]
    · refine .inl ⟨if_neg hne, fun h hh => ?_⟩
      rw [← Option.some.inj hh]
      exact not_not.mp hne

variable {r : EngineResult P W Database}

theorem applyReceived_cases {su : Surroundings} {block : Block}
    (h : e.applyReceived cfg su block = some r) :
    (¬ Extends P e.chainState block ∧ ∃ err ov, r = ⟨.error err, e, [], ov⟩) ∨
      ∃ a rs ov, applyBlock P W cfg su.ord e.moduleCache e.chainState block = some a ∧
        a.result = .ok rs ∧ (ov = false → a.overflow = false) ∧
        r = ⟨.ok (), (e.applied a).finished su.epochTime (block.transactions.map (·.hash)),
          (e.applied a).epochEvents su.epochTime ++ [.newBlock block], ov⟩ := by
  unfold applyReceived at h
  obtain ⟨a, ha, rfl⟩ := Option.map_eq_some_iff.mp h
  cases hres : a.result with
  | error err =>
    obtain ⟨hext, hstate, hcache⟩ := applyBlock_error ha hres
    refine .inl ⟨hext, err, a.overflow, ?_⟩
    rw [applied, hstate, hcache]
  | ok rs =>
    refine .inr ⟨a, rs, _, ha, hres, fun hov => ?_, by rw [finishBlock_eq]⟩
    exact (Bool.or_eq_false_iff.mp hov).1

theorem onBlockReceived_cases {su : Surroundings} {block : Block}
    (h : e.onBlockReceived cfg su block = some r) :
    Reception cfg su e block r := by
  unfold onBlockReceived at h
  dsimp only at h
  cases hcheck : (e.checkReceived block).val with
  | error err =>
    rw [hcheck] at h
    obtain rfl := Option.some.inj h
    refine .refused fun hc => ?_
    rw [checkReceived_ok.mpr hc] at hcheck
    cases hcheck
  | ok u =>
    rw [hcheck] at h
    have hc := checkReceived_ok.mp hcheck
    rcases e.evidenceOf_eq block with ⟨hno, -⟩ | ⟨prevHash, hseen, hne, hev⟩
    · rw [hno] at h
      obtain ⟨r', hr', rfl⟩ := Option.map_eq_some_iff.mp h
      rcases applyReceived_cases hr' with ⟨hext, err, ov, rfl⟩ | ⟨a, rs, ov, ha, hok, hov, rfl⟩
      · rw [remember_chainState] at hext
        exact .apart hc hno hext
      · rw [remember_chainState, remember_moduleCache] at ha
        exact .accepted hc hno ha hok fun hf => hov (Bool.or_eq_false_iff.mp hf).2
    · rw [hev] at h
      obtain rfl := Option.some.inj h
      exact .detected hc hseen hne

def nextNumber (e : ConsensusEngine P W Database) : ℕ :=
  (addU 64 e.chainState.head.header.number 1).val

def selected (e : ConsensusEngine P W Database) (su : Surroundings) : List SignedTransaction :=
  (e.txPool.selectTransactions su.pool e.config.gasLimitPerBlock
    e.config.maxTransactionsPerBlock).val

/-- The block that production builds and applies. -/
def draft (e : ConsensusEngine P W Database) (su : Surroundings) (keypair : KeyPair) : Block :=
  e.buildBlock keypair su.timestamp e.nextNumber (e.selected su)

/-- The lottery chooses the owner of a key pair for the next block. -/
def Proposes (e : ConsensusEngine P W Database) (keypair : KeyPair) : Prop :=
  (selectProposer P e.chainState.currentEpoch.validatorSet.activeValidators
    (e.chainState.head.hash P) e.nextNumber).val = .ok (keypair.address P)

/-- The sum that production writes into the header. -/
def gasTotal (rs : List TransactionReceipt) : ℕ := (sumU 64 (rs.map (·.gasUsed))).val

/-- The block that production sends, given the receipts of its draft. -/
def sent (e : ConsensusEngine P W Database) (su : Surroundings) (keypair : KeyPair)
    (rs : List TransactionReceipt) : Block :=
  sealBlock P (e.draft su keypair) (gasTotal rs) keypair

/-- **What a call of `try_produce_block` can do**: nothing, or apply a block and send it. -/
inductive Production (cfg : VmConfig) (su : Surroundings) (keypair : KeyPair)
    (e : ConsensusEngine P W Database) : EngineResult P W Database → Prop
  | idle {res : Except ConsensusError Unit} {ov : Bool}
      (h : ¬ e.Proposes keypair ∨ ¬ Extends P e.chainState (e.draft su keypair)) :
      Production cfg su keypair e ⟨res, e, [], ov⟩
  | produced {a : Applied W.Module Database} {rs : List TransactionReceipt} {ov : Bool}
      (hp : e.Proposes keypair)
      (ha : applyBlock P W cfg su.ord e.moduleCache e.chainState (e.draft su keypair) = some a)
      (hok : a.result = .ok rs)
      (hov : ov = false → a.overflow = false ∧ (sumU 64 (rs.map (·.gasUsed))).ovf = false) :
      Production cfg su keypair e ⟨.ok (),
        ((e.applied a).finished su.epochTime ((e.selected su).map (·.hash))).voteFor e.nextNumber
          ((e.sent su keypair rs).hash P) keypair su.voteTime,
        (e.applied a).epochEvents su.epochTime ++ [.newBlock (e.sent su keypair rs)], ov⟩

theorem newBlock_mem {now : ℕ} {b b' : Block} :
    ConsensusEvent.newBlock b ∈ e.epochEvents now ++ [.newBlock b'] ↔ b = b' := by
  unfold epochEvents
  split_ifs <;> simp

theorem tryProduceBlock_cases {su : Surroundings} {keypair : KeyPair}
    (h : e.tryProduceBlock cfg su keypair = some r) : Production cfg su keypair e r := by
  unfold tryProduceBlock at h
  dsimp only at h
  cases hsel : (selectProposer P e.chainState.currentEpoch.validatorSet.activeValidators
      (e.chainState.head.hash P) (addU 64 e.chainState.head.header.number 1).val).val with
  | error err =>
    rw [hsel] at h
    obtain rfl := Option.some.inj h
    refine .idle (.inl fun hp => ?_)
    cases hsel.symm.trans hp
  | ok addr =>
    rw [hsel] at h
    dsimp only at h
    split_ifs at h with hturn
    · obtain rfl := Option.some.inj h
      refine .idle (.inl fun hp => hturn ?_)
      exact Except.ok.inj (hsel.symm.trans hp)
    · obtain ⟨r', hr', rfl⟩ := Option.map_eq_some_iff.mp h
      unfold produceBlock at hr'
      obtain ⟨a, ha, rfl⟩ := Option.map_eq_some_iff.mp hr'
      have hp : e.Proposes keypair := by rw [Proposes, ← not_not.mp hturn]; exact hsel
      cases hres : a.result with
      | error err =>
        obtain ⟨hext, hstate, hcache⟩ := applyBlock_error ha hres
        rw [applied, hstate, hcache]
        exact .idle (.inr hext)
      | ok rs =>
        simp only [finishBlock_eq]
        refine .produced hp ha hres fun hov => ?_
        simp only [Bool.or_eq_false_iff] at hov
        exact ⟨hov.2.1.1.2, hov.2.1.2⟩

/-! ### Runs -/

/-- The calls of an engine. -/
inductive Op where
  | produce (su : Surroundings) (keypair : KeyPair)
  | receive (su : Surroundings) (block : Block)
  | transaction (tx : SignedTransaction) (now : ℕ)
  | vote (v : FinalityVote)

/-- The block that a call applies, if it applies one. -/
def blockOf (e : ConsensusEngine P W Database) : Op → Option (Surroundings × Block)
  | .produce su keypair => some (su, e.draft su keypair)
  | .receive su block => some (su, block)
  | _ => none

/-- A call; `none` is a panic of the VM host. -/
def handle {σ : Type} [Backend σ] (cfg : VmConfig) (e : ConsensusEngine P W σ) :
    Op → Option (EngineResult P W σ)
  | .produce su keypair => e.tryProduceBlock cfg su keypair
  | .receive su block => e.onBlockReceived cfg su block
  | .transaction tx now => some (e.onTransactionReceived tx now)
  | .vote v => some (e.onVoteReceived v)

/-- The step relation of an engine: whatever a call returns, the engine goes on. -/
def Call (cfg : VmConfig) (e : ConsensusEngine P W Database) (op : Op)
    (e' : ConsensusEngine P W Database) : Prop :=
  ∃ r, e.handle cfg op = some r ∧ r.engine = e'

/-- **What a call can do to the engine.** -/
inductive Handled (cfg : VmConfig) (e : ConsensusEngine P W Database) :
    Op → ConsensusEngine P W Database → Prop
  | produce {su : Surroundings} {keypair : KeyPair} {r : EngineResult P W Database}
      (h : Production cfg su keypair e r) : Handled cfg e (.produce su keypair) r.engine
  | receive {su : Surroundings} {block : Block} {r : EngineResult P W Database}
      (h : Reception cfg su e block r) : Handled cfg e (.receive su block) r.engine
  | transaction {tx : SignedTransaction} {now : ℕ} {txPool : TransactionPool P} :
      Handled cfg e (.transaction tx now) { e with txPool }
  | vote {v : FinalityVote} :
      Handled cfg e (.vote v) { e with finality := (e.finality.addVote P v).2 }

theorem handled_of_call {e e' : ConsensusEngine P W Database} {op : Op} (h : Call cfg e op e') :
    Handled cfg e op e' := by
  obtain ⟨r, hr, rfl⟩ := h
  cases op with
  | produce su keypair => exact .produce (tryProduceBlock_cases hr)
  | receive su block => exact .receive (onBlockReceived_cases hr)
  | transaction tx now =>
    obtain rfl := Option.some.inj hr
    unfold onTransactionReceived
    cases e.txPool.insert tx now with
    | error err => exact .transaction
    | ok txPool => exact .transaction
  | vote v =>
    obtain rfl := Option.some.inj hr
    have hengine : (e.onVoteReceived v).engine =
        { e with finality := (e.finality.addVote P v).2 } := by
      unfold onVoteReceived
      dsimp only
      split <;> rfl
    rw [hengine]
    exact .vote

/-- An engine that was created on an empty database or on that of a node that stopped. -/
def Created (P : Primitives) (W : Wasmtime) (cfg : VmConfig) (config : ConsensusConfig)
    (g : GenesisConfig) (e : ConsensusEngine P W Database) : Prop :=
  ∃ d d' cache, (d = .empty ∨ ∃ s, Rustchain.Consensus.Reachable P W cfg g s ∧ s.storage = d) ∧
    new P W config g d cache = (.ok (some e), d')

/-- The engines that runs lead to. -/
def Reachable (P : Primitives) (W : Wasmtime) (cfg : VmConfig) (config : ConsensusConfig)
    (g : GenesisConfig) (e : ConsensusEngine P W Database) : Prop :=
  ∃ e₀ ops, Created P W cfg config g e₀ ∧ Run (Call cfg) Free e₀ ops e

theorem new_ok {config : ConsensusConfig} {d d' : Database} {cache : HashMap Blake3Hash W.Module}
    (h : new P W config g d cache = (.ok (some e), d')) :
    ∃ s, fromGenesis P g d = (.ok (some s), d') ∧
      e = ⟨config, s, .new P config.mempoolSize config.minGasPrice,
        .new s.currentEpoch.validatorSet, cache, ∅⟩ := by
  unfold new at h
  obtain ⟨h1, h2⟩ := Prod.mk.inj h
  cases hr : fromGenesis P g d with
  | mk res d₁ =>
    rw [hr] at h1 h2
    cases res with
    | error err => cases h1
    | ok o =>
      cases o with
      | none => cases Except.ok.inj h1
      | some s =>
        obtain rfl : d₁ = d' := h2
        exact ⟨s, rfl, (Option.some.inj (Except.ok.inj h1)).symm⟩

theorem slash_cases (e : ConsensusEngine P W Database) (now : ℕ) (evidence : SlashReason)
    (validator : Address) : (e.slash now evidence validator).1 = e ∨
      ∃ v, (e.slash now evidence validator).1 =
        { e with chainState :=
          { e.chainState with storage := e.chainState.storage.putValidator v } } := by
  unfold slash
  cases e.chainState.currentEpoch.validatorSet.getValidator validator with
  | none => exact .inl rfl
  | some vi =>
    dsimp only
    split
    · exact .inl rfl
    · exact .inr ⟨_, rfl⟩

theorem slash_frame (e : ConsensusEngine P W Database) (now : ℕ) (evidence : SlashReason)
    (validator : Address) :
    (e.slash now evidence validator).1.chainState.currentEpoch = e.chainState.currentEpoch ∧
      (e.slash now evidence validator).1.finality = e.finality ∧
      (e.slash now evidence validator).1.seenBlocks = e.seenBlocks := by
  rcases e.slash_cases now evidence validator with hs | ⟨v, hs⟩
  · rw [hs]
    exact ⟨rfl, rfl, rfl⟩
  · rw [hs]
    exact ⟨rfl, rfl, rfl⟩

theorem chainRun_applied {ord : ℕ → HashOrders} {cache : HashMap Blake3Hash W.Module}
    {block : Block} {s : ChainState Database} {a : Applied W.Module Database}
    {rs : List TransactionReceipt}
    (ha : applyBlock P W cfg ord cache s block = some a) (hok : a.result = .ok rs)
    (params : ConsensusParams) (now : ℕ) :
    ∃ ops, Run (ChainStep P W cfg g) Free s ops (maybeAdvanceEpoch params now a.state).val.2 := by
  have happly : ChainStep P W cfg g s (.applyBlock ord cache block) a.state :=
    ⟨a, rs, ha, hok, rfl⟩
  have hadvance : ChainStep P W cfg g a.state (.advanceEpoch params now)
    (maybeAdvanceEpoch params now a.state).val.2 := rfl
  exact ⟨_, (Run.nil.snoc trivial happly).snoc trivial hadvance⟩

/-- **What a call keeps**: a property of chain state and module cache that an applied block and the
look at the epoch after it keep, and that does not depend on the stored validators. -/
theorem Call.keeps {I : ChainState Database → HashMap Blake3Hash W.Module → Prop}
    {e e' : ConsensusEngine P W Database} {op : Op} (hcall : Call cfg e op e')
    (h : I e.chainState e.moduleCache)
    (happly : ∀ su block a rs, e.blockOf op = some (su, block) →
      applyBlock P W cfg su.ord e.moduleCache e.chainState block = some a → a.result = .ok rs →
        ∀ params now, I (maybeAdvanceEpoch params now a.state).val.2 a.cache)
    (hput : ∀ v, I { e.chainState with storage := e.chainState.storage.putValidator v }
      e.moduleCache) : I e'.chainState e'.moduleCache := by
  cases handled_of_call hcall with
  | produce hprod =>
    cases hprod with
    | idle _ => exact h
    | produced _ ha hok _ => exact happly _ _ _ _ rfl ha hok _ _
  | @receive su block _ hrecv =>
    cases hrecv with
    | refused _ => exact h
    | @detected prevHash _ _ _ _ =>
      rcases e.slash_cases su.slashTime (.doubleSign prevHash (block.hash P) block.header.number)
        block.header.validator with hs | ⟨v, hs⟩
      · rw [hs]
        exact h
      · rw [hs]
        exact hput v
    | apart _ _ _ =>
      rw [remember_chainState, remember_moduleCache]
      exact h
    | accepted _ _ ha hok _ => exact happly _ _ _ _ rfl ha hok _ _
  | transaction => exact h
  | vote => exact h

theorem chainRun_call {e e' : ConsensusEngine P W Database} {op : Op} (h : Call cfg e op e') :
    ∃ ops, Run (ChainStep P W cfg g) Free e.chainState ops e'.chainState := by
  refine h.keeps (I := fun s _ => ∃ ops, Run (ChainStep P W cfg g) Free e.chainState ops s)
    ⟨[], .nil⟩ (fun _ _ _ _ _ ha hok params now => chainRun_applied ha hok params now) fun v => ?_
  have hstep : ChainStep P W cfg g e.chainState (.putValidator v)
    { e.chainState with storage := e.chainState.storage.putValidator v } := rfl
  exact ⟨_, Run.nil.snoc trivial hstep⟩

theorem Reachable.chain {config : ConsensusConfig} (h : Reachable P W cfg config g e) :
    Rustchain.Consensus.Reachable P W cfg g e.chainState := by
  obtain ⟨e₀, ops, ⟨d, d', cache, hd, hnew⟩, hrun⟩ := h
  refine hrun.invariant (I := fun e => Rustchain.Consensus.Reachable P W cfg g e.chainState) ?_ ?_
  · obtain ⟨s, hs, rfl⟩ := new_ok hnew
    rcases hd with rfl | ⟨t, ⟨s₀, l, h0, hl⟩, rfl⟩
    · exact ⟨s, [], ⟨d', hs⟩, .nil⟩
    · have hstep : ChainStep P W cfg g t .restart s := ⟨d', hs⟩
      exact ⟨s₀, _, h0, hl.snoc trivial hstep⟩
  · rintro e op e' ⟨s₀, l, h0, hl⟩ - hcall
    obtain ⟨l', hl'⟩ := chainRun_call (g := g) hcall
    exact ⟨s₀, _, h0, hl.trans hl'⟩

end ConsensusEngine

/-! ### An engine of the small chain -/

namespace Small

def config : ConsensusConfig := ⟨1, 100, 100, 1, genesis.consensusParams, 10 ^ 7⟩

def engineOn (s : ChainState Database) : ConsensusEngine .small .small Database :=
  ⟨config, s, .new .small config.mempoolSize config.minGasPrice, .new s.currentEpoch.validatorSet,
    ∅, ∅⟩

def engine : ConsensusEngine .small .small Database := engineOn start

theorem createdOn {g : GenesisConfig} {s : ChainState Database} (h : Started .small g s) :
    ConsensusEngine.Created .small .small .default config g (engineOn s) := by
  obtain ⟨d, hd⟩ := h
  refine ⟨.empty, d, ∅, .inl rfl, ?_⟩
  unfold ConsensusEngine.new
  rw [hd]
  rfl

theorem engine_created : ConsensusEngine.Created .small .small .default config genesis engine :=
  createdOn started

def surroundings : Surroundings := ⟨fun _ => .listed, .listed _, 1, 0, 0, 0⟩

def signedBlock (b : UInt8) (head : Block) (txs : List SignedTransaction) (timestamp : ℕ) : Block :=
  { next head txs with
    header := { (next head txs).header with
      timestamp
      validator := (KeyPair.small b).address .small
      validatorPubkey := (KeyPair.small b).publicKey .small }.sign .small (KeyPair.small b) }

def tip : SignedTransaction := tx 2 0 .transfer (some ((KeyPair.small 1).address .small)) 7 []

theorem handle_some {e : ConsensusEngine .small .small Database} {op : ConsensusEngine.Op}
    {p : EngineResult .small .small Database → Prop} [DecidablePred p]
    (h : (e.handle .default op).map (fun r => decide (p r)) = some true) :
    ∃ r, e.handle .default op = some r ∧ p r := by
  obtain ⟨r, hr, hp⟩ := Option.map_eq_some_iff.mp h
  exact ⟨r, hr, of_decide_eq_true hp⟩

end Small

end Rustchain.Consensus
