import Rustchain.Consensus.EngineRuns

/-! # Evidence of double signing

An engine remembers the hash of the first block that it checked for a height and a validator, and a
checked block with another hash is evidence. The evidence is sound: every hash in the table comes
from a delivered header that the validator signed. It is not complete, because the proposer of a
block is checked against the head of the moment, which the first of the two blocks has moved on. And
it has no effect: the penalty is applied to a copy of the record. -/

namespace Rustchain.Consensus

open Rustchain.Core Storage Vm Lib.Machine Lib.Maps Lib.Runs Lib.Checks ProposerSelection

variable {P : Primitives} {W : Wasmtime} {cfg : VmConfig} {g : GenesisConfig}

/-- A header of a validator for a height, with a signature that verifies over its hash under a key
whose address is the validator. -/
structure SignedHeader (P : Primitives) (v : Address) (n : ℕ) (h : BlockHeader) : Prop where
  number : h.number = n
  validator : h.validator = v
  address : h.validatorPubkey.toAddress P = v
  signed : P.verify h.validatorPubkey (h.hash P).asBytes h.validatorSignature = true

namespace ConsensusEngine

/-- The engine raises evidence when it is given a block. -/
def Raises (e : ConsensusEngine P W Database) (block : Block) (evidence : SlashReason) : Prop :=
  (e.checkReceived block).val = .ok () ∧ e.evidenceOf block = some evidence

/-- The engine finds a conflict when it is given a block. -/
def Detects (e : ConsensusEngine P W Database) (block : Block) : Prop :=
  ∃ evidence, e.Raises block evidence

variable {block : Block}

theorem Checked.signedHeader {e : ConsensusEngine P W Database} (h : e.Checked block) :
    SignedHeader P block.header.validator block.header.number block.header := by
  obtain ⟨hheader, -⟩ := (Block.validateBasic_ok P).mp h.basic
  exact ⟨rfl, rfl, ((BlockHeader.validateBasic_ok P).mp hheader).2.2.2, h.signed⟩

theorem raises_iff {e : ConsensusEngine P W Database} {evidence : SlashReason} :
    e.Raises block evidence ↔ e.Checked block ∧ ∃ prevHash,
      e.seenBlocks.lookup (seenKey block) = some prevHash ∧ prevHash ≠ block.hash P ∧
      evidence = .doubleSign prevHash (block.hash P) block.header.number := by
  unfold Raises
  rw [checkReceived_ok]
  rcases e.evidenceOf_eq block with ⟨hno, hsame⟩ | ⟨prevHash, hseen, hne, hev⟩
  · constructor
    · rintro ⟨-, hev⟩
      rw [hno] at hev
      cases hev
    · rintro ⟨-, prevHash, hseen, hne, -⟩
      exact absurd (hsame prevHash hseen) hne
  · rw [hev]
    constructor
    · rintro ⟨hc, hev'⟩
      exact ⟨hc, prevHash, hseen, hne, (Option.some.inj hev').symm⟩
    · rintro ⟨hc, prevHash', hseen', -, rfl⟩
      rw [hseen] at hseen'
      exact ⟨hc, by rw [Option.some.inj hseen']⟩

theorem detects_iff {e : ConsensusEngine P W Database} :
    e.Detects block ↔ e.Checked block ∧ ∃ prevHash,
      e.seenBlocks.lookup (seenKey block) = some prevHash ∧ prevHash ≠ block.hash P := by
  constructor
  · rintro ⟨evidence, hr⟩
    obtain ⟨hc, prevHash, hseen, hne, -⟩ := raises_iff.mp hr
    exact ⟨hc, prevHash, hseen, hne⟩
  · rintro ⟨hc, prevHash, hseen, hne⟩
    exact ⟨_, raises_iff.mpr ⟨hc, prevHash, hseen, hne, rfl⟩⟩

instance (e : ConsensusEngine P W Database) (block : Block) : Decidable (e.Detects block) :=
  decidable_of_iff (e.Checked block ∧ (e.evidenceOf block).isSome = true) <| by
    rw [Option.isSome_iff_exists, ← checkReceived_ok]
    exact ⟨fun ⟨hc, evidence, hev⟩ => ⟨evidence, hc, hev⟩,
      fun ⟨evidence, hc, hev⟩ => ⟨hc, evidence, hev⟩⟩

/-! ### The table of the blocks seen -/

/-- The table after a block that is not evidence: its key is there now, with the hash it had or with
that of the block. -/
def remembered (e : ConsensusEngine P W Database) (block : Block) :
    HashMap (ℕ × Address) Blake3Hash :=
  (e.remember block).seenBlocks

theorem lookup_remembered (e : ConsensusEngine P W Database) (block : Block) (k : ℕ × Address) :
    (e.remembered block).lookup k = if k = seenKey block then
      some ((e.seenBlocks.lookup k).getD (block.hash P)) else e.seenBlocks.lookup k := by
  unfold remembered remember
  cases hseen : e.seenBlocks.lookup (seenKey block) with
  | some h =>
    split_ifs with hk
    · rw [hk, hseen]
      rfl
    · rfl
  | none =>
    dsimp only
    split_ifs with hk
    · rw [hk, AList.lookup_insert, hseen]
      rfl
    · rw [AList.lookup_insert_ne hk]

variable {e e' : ConsensusEngine P W Database}

/-- **What a call does to the table**: only a received block that passes the checks and is no
evidence changes it. -/
theorem seenBlocks_call {op : Op} (h : Call cfg e op e') :
    (e'.seenBlocks = e.seenBlocks ∧
        ∀ su block, op = .receive su block → e.Checked block → e.Detects block) ∨
      ∃ su block, op = .receive su block ∧ e.Checked block ∧
        e'.seenBlocks = e.remembered block := by
  cases handled_of_call h with
  | produce hprod =>
    refine .inl ⟨?_, fun _ _ hop => (nomatch hop)⟩
    cases hprod with
    | idle _ => rfl
    | produced _ _ _ _ => rfl
  | @receive su block _ hrecv =>
    cases hrecv with
    | refused hno =>
      refine .inl ⟨rfl, fun su' block' hop hc => ?_⟩
      obtain ⟨-, rfl⟩ := Op.receive.inj hop
      exact absurd hc hno
    | detected hc hseen hne =>
      refine .inl ⟨(slash_frame ..).2.2, fun su' block' hop _ => ?_⟩
      obtain ⟨-, rfl⟩ := Op.receive.inj hop
      exact detects_iff.mpr ⟨hc, _, hseen, hne⟩
    | apart hc _ _ => exact .inr ⟨su, block, rfl, hc, rfl⟩
    | accepted hc _ _ _ _ => exact .inr ⟨su, block, rfl, hc, rfl⟩
  | transaction => exact .inl ⟨rfl, fun _ _ hop => (nomatch hop)⟩
  | vote => exact .inl ⟨rfl, fun _ _ hop => (nomatch hop)⟩

/-! ### Soundness -/

def deliveredBy (ops : List Op) : List Block :=
  ops.filterMap fun
    | .receive _ block => some block
    | _ => none

theorem deliveredBy_append (ops ops' : List Op) :
    deliveredBy (ops ++ ops') = deliveredBy ops ++ deliveredBy ops' :=
  List.filterMap_append ..

/-- Every entry of the table is the hash of a delivered header that the validator signed. -/
def SeenInv (blocks : List Block) (e : ConsensusEngine P W Database) : Prop :=
  ∀ n v h, e.seenBlocks.lookup (n, v) = some h →
    ∃ b ∈ blocks, SignedHeader P v n b.header ∧ b.hash P = h

variable {ops : List Op}

theorem seenInv_call {op : Op} (h : SeenInv (deliveredBy ops) e) (hcall : Call cfg e op e') :
    SeenInv (deliveredBy (ops ++ [op])) e' := by
  have hold : ∀ n v hash, e.seenBlocks.lookup (n, v) = some hash →
      ∃ b ∈ deliveredBy (ops ++ [op]), SignedHeader P v n b.header ∧ b.hash P = hash := by
    intro n v hash hl
    obtain ⟨b, hb, hs⟩ := h n v hash hl
    exact ⟨b, by rw [deliveredBy_append]; exact List.mem_append_left _ hb, hs⟩
  intro n v hash hl
  rcases seenBlocks_call hcall with ⟨hsame, -⟩ | ⟨su, block, rfl, hc, hnew⟩
  · rw [hsame] at hl
    exact hold n v hash hl
  · rw [hnew, lookup_remembered] at hl
    split_ifs at hl with hk
    · cases hseen : e.seenBlocks.lookup (n, v) with
      | some hash' =>
        rw [hseen] at hl
        obtain rfl : hash' = hash := Option.some.inj hl
        exact hold n v hash' hseen
      | none =>
        rw [hseen] at hl
        obtain rfl : block.hash P = hash := Option.some.inj hl
        obtain ⟨rfl, rfl⟩ := Prod.mk.inj hk
        refine ⟨block, ?_, hc.signedHeader, rfl⟩
        rw [deliveredBy_append]
        exact List.mem_append_right _ (List.mem_singleton.mpr rfl)
    · exact hold n v hash hl

theorem seenInv_of_run {config : ConsensusConfig} {e₀ e : ConsensusEngine P W Database}
    (h0 : Created P W cfg config g e₀) (hrun : Run (Call cfg) Free e₀ ops e) :
    SeenInv (deliveredBy ops) e := by
  refine hrun.history (I := fun l e => SeenInv (deliveredBy l) e) ?_
    fun l t op u ht _ hs => seenInv_call ht hs
  obtain ⟨d, d', cache, -, hnew⟩ := h0
  obtain ⟨s, -, rfl⟩ := new_ok hnew
  intro n v h hl
  simp at hl

/-- **Evidence is sound.** Whenever an engine raises evidence against a validator, it was given two
headers of that validator for one height, with different hashes and each with a signature that
verifies over its hash under a key of the validator. So nothing is raised against a validator that
signs at most one header for a height: `signed` is what it signed, and signatures are not forged
among the blocks that were delivered. -/
theorem evidence_sound (P : Primitives) (W : Wasmtime) (cfg : VmConfig) (config : ConsensusConfig)
    {g : GenesisConfig} {e₀ e : ConsensusEngine P W Database} {ops : List Op}
    (h0 : Created P W cfg config g e₀) (hrun : Run (Call cfg) Free e₀ ops e) {block : Block}
    {evidence : SlashReason} (hraise : e.Raises block evidence) :
    (∃ b ∈ deliveredBy ops, b.hash P ≠ block.hash P ∧
      evidence = .doubleSign (b.hash P) (block.hash P) block.header.number ∧
      SignedHeader P block.header.validator block.header.number b.header ∧
      SignedHeader P block.header.validator block.header.number block.header) ∧
    ∀ (v : Address) (signed : Set BlockHeader),
      (∀ b ∈ deliveredBy ops ++ [block], ∀ n, SignedHeader P v n b.header → b.header ∈ signed) →
      (∀ h ∈ signed, ∀ h' ∈ signed, h.number = h'.number → h.hash P = h'.hash P) →
      block.header.validator ≠ v := by
  obtain ⟨hc, prevHash, hseen, hne, rfl⟩ := raises_iff.mp hraise
  obtain ⟨b, hb, hsigned, rfl⟩ := seenInv_of_run h0 hrun _ _ _ hseen
  refine ⟨⟨b, hb, hne, rfl, hsigned, hc.signedHeader⟩, ?_⟩
  rintro v signed hunforged honce rfl
  have hb' := hunforged b (List.mem_append_left _ hb) _ hsigned
  have hblock := hunforged block (List.mem_append_right _ (List.mem_singleton.mpr rfl)) _
    hc.signedHeader
  exact hne (honce _ hb' _ hblock hsigned.number)

/-! ### Detection -/

theorem lookup_call_of_some {op : Op} {k : ℕ × Address} {h : Blake3Hash} (hcall : Call cfg e op e')
    (hl : e.seenBlocks.lookup k = some h) :
    e'.seenBlocks.lookup k = some h := by
  rcases seenBlocks_call hcall with ⟨hsame, -⟩ | ⟨su, block, -, -, hnew⟩
  · rwa [hsame]
  · rw [hnew, lookup_remembered, hl]
    split_ifs <;> rfl

theorem lookup_run_of_some {k : ℕ × Address} {h : Blake3Hash} (hrun : Run (Call cfg) Free e ops e')
    (hl : e.seenBlocks.lookup k = some h) :
    e'.seenBlocks.lookup k = some h :=
  hrun.invariant (I := fun e => e.seenBlocks.lookup k = some h) hl
    fun _ _ _ ht _ hs => lookup_call_of_some hs ht

theorem lookup_run_of_none {k : ℕ × Address} (hrun : Run (Call cfg) Free e ops e')
    (hl : e.seenBlocks.lookup k = none) (hothers : ∀ b ∈ deliveredBy ops, seenKey b ≠ k) :
    e'.seenBlocks.lookup k = none := by
  refine hrun.history (I := fun l e => (∀ b ∈ deliveredBy l, seenKey b ≠ k) →
    e.seenBlocks.lookup k = none) (fun _ => hl) ?_ hothers
  intro l t op u ht _ hcall hl
  rw [deliveredBy_append, List.forall_mem_append] at hl
  have hnone := ht hl.1
  rcases seenBlocks_call hcall with ⟨hsame, -⟩ | ⟨su, block, rfl, -, hnew⟩
  · rwa [hsame]
  · have hk : seenKey block ≠ k := hl.2 block (List.mem_singleton.mpr rfl)
    rwa [hnew, lookup_remembered, if_neg (Ne.symm hk)]

theorem lookup_receive {su : Surroundings} (hcall : Call cfg e (.receive su block) e')
    (hc : e.Checked block) :
    e.Detects block ∨ e'.seenBlocks.lookup (seenKey block) = some (block.hash P) := by
  by_cases hd : e.Detects block
  · exact .inl hd
  · right
    rcases seenBlocks_call hcall with ⟨-, hdetect⟩ | ⟨su', block', hop, -, hnew⟩
    · exact absurd (hdetect su block rfl hc) hd
    · obtain ⟨-, rfl⟩ := Op.receive.inj hop
      rw [hnew, lookup_remembered, if_pos rfl]
      cases hseen : e.seenBlocks.lookup (seenKey block) with
      | none => rfl
      | some prevHash =>
        by_contra hne
        exact hd (detects_iff.mpr ⟨hc, prevHash, hseen, fun heq => hne (congrArg some heq)⟩)

theorem detects_of_checked {su : Surroundings} {e₁ e₂ e₃ : ConsensusEngine P W Database}
    {b₁ b₂ : Block} (hcall : Call cfg e₁ (.receive su b₁) e₂) (hrun : Run (Call cfg) Free e₂ ops e₃)
    (hkey : seenKey b₂ = seenKey b₁) (hne : b₁.hash P ≠ b₂.hash P) (h₁ : e₁.Checked b₁)
    (h₂ : e₃.Checked b₂) :
    e₁.Detects b₁ ∨ e₃.Detects b₂ := by
  rcases lookup_receive hcall h₁ with hd | hl
  · exact .inl hd
  · refine .inr (detects_iff.mpr ⟨h₂, b₁.hash P, ?_, hne⟩)
    rw [hkey]
    exact lookup_run_of_some hrun hl

theorem onBlockReceived_of_detects (cfg : VmConfig) {e : ConsensusEngine P W Database}
    (h : e.Detects block) (su : Surroundings) :
    ∃ r, e.onBlockReceived cfg su block = some r ∧
      r.result = .error (.invalidBlock "double-sign detected") := by
  obtain ⟨evidence, hc, hev⟩ := h
  unfold onBlockReceived
  dsimp only
  rw [hc, hev]
  exact ⟨_, rfl, rfl⟩

/-- **A conflict has no effect in memory**: the epoch with its validators stays as it is, and the
validator, whom the lottery has just chosen, is one of the active ones. -/
theorem epoch_of_detects {su : Surroundings} (hcall : Call cfg e (.receive su block) e')
    (hd : e.Detects block) :
    e'.chainState.currentEpoch = e.chainState.currentEpoch ∧
      ∃ v ∈ e'.chainState.currentEpoch.validatorSet.activeValidators,
        v.address = block.header.validator := by
  obtain ⟨hc, prevHash, hseen, hne⟩ := detects_iff.mp hd
  have hepoch : e'.chainState.currentEpoch = e.chainState.currentEpoch := by
    obtain ⟨r, hr, rfl⟩ := hcall
    have hev : e.evidenceOf block ≠ none := by
      obtain ⟨evidence, -, hev⟩ := hd
      rw [hev]
      exact fun h => (nomatch h)
    cases onBlockReceived_cases hr with
    | refused _ => rfl
    | detected _ _ _ => exact (slash_frame ..).1
    | apart _ hno _ => exact absurd hno hev
    | accepted _ hno _ _ _ => exact absurd hno hev
  refine ⟨hepoch, ?_⟩
  rw [hepoch]
  exact List.mem_map.mp (selectProposer_mem hc.proposer)

/-- **Double signs.** Two different blocks of one validator for one height are delivered, the first
in any state and the second after any further calls. If both pass the checks at their turn, one of
them is evidence, and where no other block of the validator for the height is delivered this is the
only case. But the evidence has no effect: in the state after it the validator is still active and
the validators in memory are those before it. -/
theorem double_sign_detection (P : Primitives) (W : Wasmtime) (cfg : VmConfig)
    {e₁ e₂ e₃ e₄ : ConsensusEngine P W Database} {su₁ su₂ : Surroundings} {b₁ b₂ : Block}
    {ops : List Op} (hcall₁ : Call cfg e₁ (.receive su₁ b₁) e₂)
    (hrun : Run (Call cfg) Free e₂ ops e₃) (hcall₂ : Call cfg e₃ (.receive su₂ b₂) e₄)
    (hnum : b₂.header.number = b₁.header.number)
    (hval : b₂.header.validator = b₁.header.validator) (hne : b₁.hash P ≠ b₂.hash P) :
    (e₁.Checked b₁ → e₃.Checked b₂ → e₁.Detects b₁ ∨ e₃.Detects b₂) ∧
    (e₁.seenBlocks.lookup (seenKey b₁) = none →
      (∀ b ∈ deliveredBy ops, seenKey b ≠ seenKey b₁) →
      (e₁.Detects b₁ ∨ e₃.Detects b₂ ↔ e₁.Checked b₁ ∧ e₃.Checked b₂)) ∧
    (e₃.Detects b₂ →
      e₄.chainState.currentEpoch = e₃.chainState.currentEpoch ∧
      ∃ v ∈ e₄.chainState.currentEpoch.validatorSet.activeValidators,
        v.address = b₂.header.validator) := by
  have hkey : seenKey b₂ = seenKey b₁ := by rw [seenKey, hnum, hval]; rfl
  refine ⟨detects_of_checked hcall₁ hrun hkey hne, fun hfirst hothers => ?_,
    epoch_of_detects hcall₂⟩
  constructor
  · rintro (hd | hd)
    · obtain ⟨-, prevHash, hseen, -⟩ := detects_iff.mp hd
      rw [hfirst] at hseen
      cases hseen
    · obtain ⟨hc₂, prevHash, hseen, -⟩ := detects_iff.mp hd
      refine ⟨?_, hc₂⟩
      by_contra hno
      have hnone : e₂.seenBlocks.lookup (seenKey b₁) = none := by
        rcases seenBlocks_call hcall₁ with ⟨hsame, -⟩ | ⟨su, b, hop, hc, -⟩
        · rwa [hsame]
        · obtain ⟨-, rfl⟩ := Op.receive.inj hop
          exact absurd hc hno
      rw [hkey, lookup_run_of_none hrun hnone hothers] at hseen
      cases hseen
  · rintro ⟨h₁, h₂⟩
    exact detects_of_checked hcall₁ hrun hkey hne h₁ h₂

end ConsensusEngine

/-! ### Two blocks of one validator -/

namespace Small

open ConsensusEngine

def blockA : Block := signedBlock 1 genesisBlock [] 1

def blockB : Block := signedBlock 1 genesisBlock [] 2

def twoValidators : GenesisConfig :=
  { genesis with initialValidators := genesis.initialValidators ++
      [⟨(KeyPair.small 3).address .small, (KeyPair.small 3).publicKey .small, 70⟩] }

def twoStart : ChainState Database :=
  ⟨genesisBlock, 0, firstEpoch twoValidators,
    initialized .small twoValidators genesisBlock .empty⟩

theorem twoStarted : Started .small twoValidators twoStart :=
  ⟨_, fromGenesis_fresh .small (by decide +kernel) rfl rfl⟩

theorem blockA_then_blockB : ∃ e, Call .default engine (.receive surroundings blockA) e ∧
    e.Detects blockB ∧ e.chainState.currentEpoch.validatorSet.activeValidators.map
      (fun v => (v.address, v.stake)) = [((KeyPair.small 1).address .small, 100)] := by
  obtain ⟨r, hr, hp⟩ := handle_some (e := engine)
    (p := fun r => r.engine.Detects blockB ∧
      r.engine.chainState.currentEpoch.validatorSet.activeValidators.map
        (fun v => (v.address, v.stake)) = [((KeyPair.small 1).address .small, 100)])
    (show (engine.handle .default (.receive surroundings blockA)).map _ = _ by decide +kernel)
  exact ⟨r.engine, ⟨r, hr, rfl⟩, hp⟩

end Small

section

open ConsensusEngine

theorem second_block_is_evidence : ∃ e, Call .default Small.engine
      (.receive Small.surroundings Small.blockA) e ∧
    ∃ evidence, e.Raises Small.blockB evidence ∧
      ∃ b ∈ deliveredBy [.receive Small.surroundings Small.blockA],
        b.hash .small ≠ Small.blockB.hash .small ∧
        SignedHeader .small Small.blockB.header.validator 1 b.header := by
  obtain ⟨e, hcall, ⟨evidence, hraise⟩, -⟩ := Small.blockA_then_blockB
  obtain ⟨⟨b, hb, hne, -, hsigned, -⟩, -⟩ := evidence_sound .small .small .default Small.config
    Small.engine_created (Run.nil.snoc trivial hcall) hraise
  exact ⟨e, hcall, evidence, hraise, b, hb, hne, hsigned⟩

theorem second_block_detected : ∃ e₂ e₃, Call .default Small.engine
      (.receive Small.surroundings Small.blockA) e₂ ∧
    Call .default e₂ (.receive Small.surroundings Small.blockB) e₃ ∧ e₂.Detects Small.blockB ∧
    e₃.chainState.currentEpoch = e₂.chainState.currentEpoch := by
  obtain ⟨e₂, hcall, hd, -⟩ := Small.blockA_then_blockB
  obtain ⟨r, hr, -⟩ := onBlockReceived_of_detects .default hd Small.surroundings
  have hcall' : Call .default e₂ (.receive Small.surroundings Small.blockB) r.engine := ⟨r, hr, rfl⟩
  exact ⟨e₂, r.engine, hcall, hcall', hd, ((double_sign_detection .small .small .default hcall .nil
    hcall' rfl rfl (by decide +kernel)).2.2 hd).1⟩

/-- With one validator, its second block is evidence, and the validator stays active with its whole
stake. With two validators, the second block of the proposer would pass the checks before the first
one and is turned away after it. -/
theorem double_signs_go_unpunished :
    Created .small .small .default Small.config Small.genesis Small.engine ∧
    (∃ e₂ e₃, Call .default Small.engine (.receive Small.surroundings Small.blockA) e₂ ∧
      e₂.Detects Small.blockB ∧
      Call .default e₂ (.receive Small.surroundings Small.blockB) e₃ ∧
      e₃.chainState.currentEpoch.validatorSet.activeValidators.map
        (fun v => (v.address, v.stake)) = [((KeyPair.small 1).address .small, 100)]) ∧
    Created .small .small .default Small.config Small.twoValidators
      (Small.engineOn Small.twoStart) ∧
    ∃ e₂, Call .default (Small.engineOn Small.twoStart)
        (.receive Small.surroundings Small.blockA) e₂ ∧
      (Small.engineOn Small.twoStart).Checked Small.blockA ∧
      (Small.engineOn Small.twoStart).Checked Small.blockB ∧ ¬ e₂.Checked Small.blockB := by
  refine ⟨Small.engine_created, ?_, Small.createdOn Small.twoStarted, ?_⟩
  · obtain ⟨e₂, hcall, hd, hactive⟩ := Small.blockA_then_blockB
    obtain ⟨r, hr, -⟩ := onBlockReceived_of_detects .default hd Small.surroundings
    have hcall' : Call .default e₂ (.receive Small.surroundings Small.blockB) r.engine :=
      ⟨r, hr, rfl⟩
    refine ⟨e₂, r.engine, hcall, hd, hcall', ?_⟩
    rw [(epoch_of_detects hcall' hd).1]
    exact hactive
  · obtain ⟨r, hr, hno⟩ := Small.handle_some (e := Small.engineOn Small.twoStart)
      (p := fun r => ¬ r.engine.Checked Small.blockB)
      (show ((Small.engineOn Small.twoStart).handle .default
        (.receive Small.surroundings Small.blockA)).map _ = _ by decide +kernel)
    exact ⟨r.engine, ⟨r, hr, rfl⟩, by decide +kernel, by decide +kernel, hno⟩

end

end Rustchain.Consensus
