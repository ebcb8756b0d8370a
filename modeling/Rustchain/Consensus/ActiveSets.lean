import Rustchain.Consensus.EngineRuns
import Rustchain.Consensus.Liveness

/-! # The active validators within an epoch

Proposers are chosen from the active validators of the current epoch, and votes are counted with the
set that the finality engine got at the last epoch change. Stakes and unstakes change the first set
at once, in the middle of the epoch, and not the second one. Where no transaction of a block within
the epoch changes it, both stay the same and agree. -/

namespace Rustchain.Consensus

open Rustchain.Core Storage Vm Lib.Machine Lib.Maps Lib.Runs

variable {P : Primitives} {W : Wasmtime} {cfg : VmConfig} {g : GenesisConfig}

/-- The active validators with their stakes, in order. -/
def activePairs (vs : ValidatorSet) : List (Address × ℕ) :=
  vs.activeValidators.map fun v => (v.address, v.stake)

/-- An executed transaction that leaves the active validators as they are: a stake of nothing by an
active validator, an unstake of more than there is, of nothing, or by a validator that is not
active, or a transaction of another type. -/
def Inert (vs : ValidatorSet) (stx : SignedTransaction) : Prop :=
  (stx.transaction.txType = .stake → ∃ vi, vs.getValidator stx.sender = some vi ∧
    vi.isActive = true ∧ stx.transaction.value = 0) ∧
  (stx.transaction.txType = .unstake → ∀ vi, vs.getValidator stx.sender = some vi →
    stx.transaction.value ≤ vi.stake → vi.isActive = true →
      stx.transaction.value = 0 ∧ vs.minStake ≤ vi.stake)

/-! ### One transaction -/

def pairsOf (l : List ValidatorInfo) : List (Address × ℕ) :=
  (l.filter isLive).map fun v => (v.address, v.stake)

theorem pairsOf_split (before after : List ValidatorInfo) (v : ValidatorInfo) :
    pairsOf (before ++ v :: after) = pairsOf before ++
      ((if isLive v then [(v.address, v.stake)] else []) ++ pairsOf after) := by
  unfold pairsOf
  rw [List.filter_append, List.filter_cons, List.map_append]
  split_ifs <;> rfl

theorem isLive_eq {v : ValidatorInfo} (h : v.jailedUntil = none) : isLive v = v.isActive := by
  rw [isLive, h]
  exact Bool.and_true _

theorem pairsOf_replace_iff (before after : List ValidatorInfo) {v w : ValidatorInfo}
    (hw : w.address = v.address) (hjail : w.jailedUntil = v.jailedUntil)
    (hj : v.jailedUntil = none) :
    pairsOf (before ++ w :: after) = pairsOf (before ++ v :: after) ↔
      w.isActive = v.isActive ∧ (v.isActive = true → w.stake = v.stake) := by
  rw [pairsOf_split, pairsOf_split, List.append_cancel_left_eq, List.append_cancel_right_eq,
    isLive_eq hj, isLive_eq (hjail.trans hj)]
  cases hlw : w.isActive with
  | false =>
    cases hlv : v.isActive with
    | false => simp
    | true => simp
  | true =>
    cases hlv : v.isActive with
    | false => simp
    | true => simp [hw]

theorem activePairs_restake_iff {vs : ValidatorSet} {stx : SignedTransaction} (hj : JailFree vs)
    (hovf : (restake vs stx).ovf = false) :
    activePairs (restake vs stx).val = activePairs vs ↔ Inert vs stx := by
  have hr := restaking vs stx
  generalize restake vs stx = x at hr hovf
  show pairsOf x.val.validators = pairsOf vs.validators ↔ _
  unfold Inert
  cases hr with
  | idle htype hshort =>
    refine ⟨fun _ => ⟨fun ht => absurd ht htype, fun ht vi hget hle => ?_⟩, fun _ => rfl⟩
    exact absurd (hshort ht vi hget) (Nat.not_lt.mpr hle)
  | @raised before after vi htype hrec =>
    have hvi : vi ∈ vs.validators := by simp [hrec.split]
    have hget : vs.getValidator stx.sender = some vi := hrec.find?_eq
    have hadd := addU_val (Bool.or_eq_false_iff.mp hovf).1
    have hne : stx.transaction.txType ≠ .unstake := by rw [htype]; decide
    rw [val_bind, hadd, withValidators_val, hrec.split]
    dsimp only
    rw [pairsOf_replace_iff before after (by rfl) (by rfl) (hj vi hvi)]
    constructor
    · rintro ⟨hactive, hstake⟩
      have hv : vi.isActive = true := hactive.symm
      have := hstake hv
      dsimp only at this
      exact ⟨fun _ => ⟨vi, hget, hv, by omega⟩, fun ht => absurd ht hne⟩
    · rintro ⟨hstake, -⟩
      obtain ⟨w, hw, hactive, hzero⟩ := hstake htype
      obtain rfl := Option.some.inj (hget.symm.trans hw)
      exact ⟨hactive.symm, fun _ => by dsimp only; omega⟩
  | @lowered before after vi htype hrec hle =>
    have hvi : vi ∈ vs.validators := by simp [hrec.split]
    have hget : vs.getValidator stx.sender = some vi := hrec.find?_eq
    have hne : stx.transaction.txType ≠ .stake := by rw [htype]; decide
    rw [withValidators_val, hrec.split]
    dsimp only
    rw [pairsOf_replace_iff before after (by rfl) (by rfl) (hj vi hvi)]
    dsimp only
    constructor
    · rintro ⟨hactive, hstake⟩
      refine ⟨fun ht => absurd ht hne, fun _ w hw _ hv => ?_⟩
      obtain rfl := Option.some.inj (hget.symm.trans hw)
      have hsame := hstake hv
      rw [hv] at hactive
      split_ifs at hactive with hlt
      exact ⟨by omega, by omega⟩
    · rintro ⟨-, hunstake⟩
      cases hv : vi.isActive with
      | false =>
        refine ⟨?_, (nomatch ·)⟩
        split_ifs <;> rfl
      | true =>
        obtain ⟨hzero, hmin⟩ := hunstake htype vi hget hle hv
        exact ⟨if_neg (by omega), fun _ => by omega⟩
  | joined htype hnew =>
    have hget : vs.getValidator stx.sender = none :=
      List.find?_eq_none.mpr fun v hv => by simpa using hnew v hv
    constructor
    · intro h
      have hlen := congrArg List.length h
      rw [withValidators_val, pairsOf_split] at hlen
      simp [isLive, ValidatorInfo.new, pairsOf] at hlen
    · rintro ⟨hstake, -⟩
      obtain ⟨vi, hvi, -⟩ := hstake htype
      rw [hget] at hvi
      cases hvi

/-- Every executed transaction is inert on the set that it finds. -/
def AllInert (vs : ValidatorSet) : List SignedTransaction → Prop
  | [] => True
  | stx :: txs => Inert vs stx ∧ AllInert (restake vs stx).val txs

theorem activePairs_restakes : ∀ {txs : List SignedTransaction} {vs : ValidatorSet}, JailFree vs →
    AllInert vs txs → (restakes vs txs).ovf = false →
      activePairs (restakes vs txs).val = activePairs vs
  | [], _, _, _, _ => rfl
  | stx :: txs, vs, hj, hok, hovf => by
    obtain ⟨hovf1, hovf2⟩ := Bool.or_eq_false_iff.mp hovf
    have hstep := (activePairs_restake_iff hj hovf1).mpr hok.1
    have hrest := activePairs_restakes ((restaking vs stx).jailFree hj) hok.2 hovf2
    rw [restakes_cons, val_bind]
    exact hrest.trans hstep

/-! ### Runs of the engine -/

namespace FinalityEngine

theorem addVote_validatorSet (e : FinalityEngine) (v : FinalityVote) :
    (e.addVote P v).2.validatorSet = e.validatorSet := by
  by_cases h : e.Accepts P v
  · rw [addVote_of_accepts h]
    split_ifs <;> rfl
  · rw [addVote_of_not_accepts h]

end FinalityEngine

namespace ConsensusEngine

/-- The active validators that proposers are chosen from. -/
def chainPairs (e : ConsensusEngine P W Database) : List (Address × ℕ) :=
  activePairs e.chainState.currentEpoch.validatorSet

/-- The active validators that the finality engine holds. -/
def finalityPairs (e : ConsensusEngine P W Database) : List (Address × ℕ) :=
  activePairs e.finality.validatorSet

/-- The block of the call is not the last one of the epoch. -/
def WithinEpoch (e : ConsensusEngine P W Database) (op : Op) : Prop :=
  ∀ su block, e.blockOf op = some (su, block) →
    block.header.number ≠ e.chainState.currentEpoch.endBlock

/-- Within the epoch, the block of the call executes inert transactions only, without overflow. -/
def Quiet (cfg : VmConfig) (e : ConsensusEngine P W Database) (op : Op) : Prop :=
  ∀ su block, e.blockOf op = some (su, block) →
    block.header.number ≠ e.chainState.currentEpoch.endBlock →
    NoOverflow P W cfg e.chainState (.applyBlock su.ord e.moduleCache block) ∧
    AllInert e.chainState.currentEpoch.validatorSet
      (executedBy P W cfg e.chainState (.applyBlock su.ord e.moduleCache block))

theorem finished_at_end {e : ConsensusEngine P W Database} (now : ℕ) (hashes : List Blake3Hash)
    (h : e.chainState.height = e.chainState.currentEpoch.endBlock) :
    (e.finished now hashes).chainPairs = (e.finished now hashes).finalityPairs := by
  unfold chainPairs finalityPairs finished
  rw [maybeAdvanceEpoch_eq, if_pos h, if_pos h]
  rfl

theorem finished_within {e : ConsensusEngine P W Database} (now : ℕ) (hashes : List Blake3Hash)
    (h : e.chainState.height ≠ e.chainState.currentEpoch.endBlock) :
    (e.finished now hashes).chainPairs = e.chainPairs ∧
      (e.finished now hashes).finalityPairs = e.finalityPairs := by
  unfold chainPairs finalityPairs finished
  rw [maybeAdvanceEpoch_eq, if_neg h, if_neg h]
  exact ⟨rfl, rfl⟩

/-- The active validators after a block was applied and the epoch looked at. At the end of the epoch
both sets are the next one; before it neither changes. -/
theorem pairs_finished {e e' : ConsensusEngine P W Database} {su : Surroundings} {block : Block}
    (hashes : List Blake3Hash) {a : Applied W.Module Database} {rs : List TransactionReceipt}
    (hj : JailFree e.chainState.currentEpoch.validatorSet)
    (hagree : e.chainPairs = e.finalityPairs) (hfin : e'.finality = e.finality)
    (ha : applyBlock P W cfg su.ord e.moduleCache e.chainState block = some a)
    (hok : a.result = .ok rs)
    (hq : block.header.number ≠ e.chainState.currentEpoch.endBlock →
      NoOverflow P W cfg e.chainState (.applyBlock su.ord e.moduleCache block) ∧
      AllInert e.chainState.currentEpoch.validatorSet
        (executedBy P W cfg e.chainState (.applyBlock su.ord e.moduleCache block))) :
    ((e'.applied a).finished su.epochTime hashes).chainPairs =
        ((e'.applied a).finished su.epochTime hashes).finalityPairs ∧
      (block.header.number ≠ e.chainState.currentEpoch.endBlock →
        ((e'.applied a).finished su.epochTime hashes).chainPairs = e.chainPairs) := by
  obtain ⟨-, -, l, hl, rfl⟩ := applyBlock_ok ha hok
  obtain ⟨hset, hovf⟩ := Exec.validatorSet_executeTxs hl
  by_cases hend : block.header.number = e.chainState.currentEpoch.endBlock
  · exact ⟨finished_at_end _ _ hend, fun hne => absurd hend hne⟩
  · obtain ⟨hno, hinert⟩ := hq hend
    have hsame : activePairs l.validatorSet = e.chainPairs := by
      rw [hset]
      exact activePairs_restakes hj hinert (hovf (hno _ ha))
    obtain ⟨hchain, hfinality⟩ := finished_within (e := e'.applied
      ⟨.ok l.receipts, committed P (su.ord block.transactions.length) e.chainState block l,
        l.moduleCache, l.overflow⟩) su.epochTime hashes hend
    rw [hchain, hfinality]
    refine ⟨?_, fun _ => hsame⟩
    show activePairs l.validatorSet = activePairs e'.finality.validatorSet
    rw [hfin]
    exact hsame.trans hagree

/-- **A call** within the epoch leaves the active validators as they are, and every call leaves the
two sets in agreement. -/
theorem pairs_call {e e' : ConsensusEngine P W Database} {op : Op}
    (hj : JailFree e.chainState.currentEpoch.validatorSet)
    (hagree : e.chainPairs = e.finalityPairs) (hq : Quiet cfg e op) (hcall : Call cfg e op e') :
    e'.chainPairs = e'.finalityPairs ∧ (e.WithinEpoch op → e'.chainPairs = e.chainPairs) := by
  -- an engine with the same epoch and the same finality validators
  have hframe : ∀ e₁ : ConsensusEngine P W Database,
      e₁.chainState.currentEpoch = e.chainState.currentEpoch →
      e₁.finality.validatorSet = e.finality.validatorSet →
      e₁.chainPairs = e₁.finalityPairs ∧ (e.WithinEpoch op → e₁.chainPairs = e.chainPairs) := by
    intro e₁ hepoch hfin
    unfold chainPairs finalityPairs at hagree ⊢
    rw [hepoch, hfin]
    exact ⟨hagree, fun _ => rfl⟩
  cases handled_of_call hcall with
  | @produce su keypair _ hprod =>
    cases hprod with
    | idle _ => exact hframe e rfl rfl
    | produced _ ha hok _ =>
      obtain ⟨h1, h2⟩ := pairs_finished ((e.selected su).map (·.hash)) hj hagree rfl ha hok
        (hq su _ rfl)
      refine ⟨?_, fun hw => h2 (hw su _ rfl)⟩
      unfold finalityPairs voteFor
      dsimp only
      rw [FinalityEngine.addVote_validatorSet]
      exact h1
  | @receive su block _ hrecv =>
    cases hrecv with
    | refused _ => exact hframe e rfl rfl
    | detected _ _ _ =>
      exact hframe _ (slash_frame ..).1 (congrArg FinalityEngine.validatorSet (slash_frame ..).2.1)
    | apart _ _ _ =>
      exact hframe _ (congrArg ChainState.currentEpoch (remember_chainState e block))
        (congrArg FinalityEngine.validatorSet (remember_finality e block))
    | accepted _ _ ha hok _ =>
      obtain ⟨h1, h2⟩ := pairs_finished (block.transactions.map (·.hash)) hj hagree
        (remember_finality e block) ha hok (hq su _ rfl)
      exact ⟨h1, fun hw => h2 (hw su _ rfl)⟩
  | transaction => exact hframe _ rfl rfl
  | vote => exact hframe _ rfl (FinalityEngine.addVote_validatorSet _ _)

/-- **The active validators within an epoch.** An executed transaction leaves the active validators
of a reachable state as they are if and only if it is inert. Along every run whose blocks within an
epoch execute inert transactions only, the active validators that proposers are chosen from are
those that the finality engine holds, and no call within the epoch changes them. -/
theorem active_validators_frozen (P : Primitives) (W : Wasmtime) (cfg : VmConfig)
    (config : ConsensusConfig) (g : GenesisConfig) :
    (∀ e stx, Reachable P W cfg config g e →
      (restake e.chainState.currentEpoch.validatorSet stx).ovf = false →
      (activePairs (restake e.chainState.currentEpoch.validatorSet stx).val = e.chainPairs ↔
        Inert e.chainState.currentEpoch.validatorSet stx)) ∧
    ∀ e₀ ops e, Created P W cfg config g e₀ → Run (Call cfg) (Quiet cfg) e₀ ops e →
      e.chainPairs = e.finalityPairs ∧
      ∀ op e', Quiet cfg e op → e.WithinEpoch op → Call cfg e op e' →
        e'.chainPairs = e.chainPairs ∧ e'.chainPairs = e'.finalityPairs := by
  refine ⟨fun e stx hr hovf => activePairs_restake_iff hr.chain.inv.jailFree hovf, ?_⟩
  intro e₀ ops e h0 hrun
  have hinv : Reachable P W cfg config g e ∧ e.chainPairs = e.finalityPairs := by
    refine hrun.history (I := fun l e => (∃ l', Run (Call cfg) Free e₀ l' e) ∧
      e.chainPairs = e.finalityPairs) ?_ ?_ |>.imp (fun ⟨l', hl'⟩ => ⟨e₀, l', h0, hl'⟩) id
    · obtain ⟨d, d', cache, -, hnew⟩ := h0
      obtain ⟨s, -, rfl⟩ := new_ok hnew
      exact ⟨⟨[], .nil⟩, rfl⟩
    · rintro l t op u ⟨⟨l', hl'⟩, hagree⟩ hq hcall
      have hreach : Reachable P W cfg config g t := ⟨e₀, l', h0, hl'⟩
      exact ⟨⟨_, hl'.snoc trivial hcall⟩, (pairs_call hreach.chain.inv.jailFree hagree hq hcall).1⟩
  refine ⟨hinv.2, fun op e' hq hw hcall => ?_⟩
  obtain ⟨h1, h2⟩ := pairs_call hinv.1.chain.inv.jailFree hinv.2 hq hcall
  exact ⟨h2 hw, h1⟩

end ConsensusEngine

namespace Small

open ConsensusEngine

def tipBlock : Block := signedBlock 1 genesisBlock [tip] 1

def paymentReceived : Op := .receive surroundings tipBlock

def stakeReceived : Op := .receive surroundings (signedBlock 1 genesisBlock [deposit 50] 1)

theorem paymentReceived_within : engine.WithinEpoch paymentReceived := by
  rintro su block hop
  obtain ⟨-, rfl⟩ := Prod.mk.inj (Option.some.inj hop)
  decide

theorem paymentReceived_quiet : Quiet .default engine paymentReceived := by
  rintro su block hop -
  obtain ⟨rfl, rfl⟩ := Prod.mk.inj (Option.some.inj hop)
  refine ⟨fun a ha => ?_, ?_⟩
  · obtain ⟨b, rs, hb, -, hno⟩ := apply_ok start tipBlock (p := fun a => a.overflow = false)
      (by decide +kernel)
    obtain rfl := Option.some.inj (hb.symm.trans ha)
    exact hno
  · have hexec : executedBy .small .small .default start (.applyBlock (fun _ => .listed) ∅
        tipBlock) = [tip] := by decide +kernel
    show AllInert _ (executedBy .small .small .default start (.applyBlock (fun _ => .listed) ∅ _))
    rw [hexec]
    exact ⟨⟨fun h => (nomatch h), fun h => (nomatch h)⟩, trivial⟩

end Small

section

open ConsensusEngine

theorem payment_keeps_validators : ∃ e, Call .default Small.engine Small.paymentReceived e ∧
    e.chainState.height = 1 ∧ e.chainPairs = Small.engine.chainPairs ∧
    e.chainPairs = e.finalityPairs := by
  obtain ⟨r, hr, hheight⟩ := Small.handle_some (e := Small.engine)
    (p := fun r => r.engine.chainState.height = 1)
    (show (Small.engine.handle .default Small.paymentReceived).map _ = _ by decide +kernel)
  have hcall : Call .default Small.engine Small.paymentReceived r.engine := ⟨r, hr, rfl⟩
  exact ⟨r.engine, hcall, hheight, ((active_validators_frozen .small .small .default Small.config
    Small.genesis).2 _ _ _ Small.engine_created .nil).2 _ _ Small.paymentReceived_quiet
      Small.paymentReceived_within hcall⟩

/-- A stake in the first block of an epoch makes a validator that can propose the next one; the
finality engine does not know it. -/
theorem stake_active_at_once : ∃ e, Call .default Small.engine Small.stakeReceived e ∧
    e.chainState.height = 1 ∧ Small.engine.chainState.currentEpoch.endBlock = 9 ∧
    Small.engine.chainPairs = [((KeyPair.small 1).address .small, 100)] ∧
    e.chainPairs = [((KeyPair.small 1).address .small, 100),
      ((KeyPair.small 2).address .small, 50)] ∧
    e.finalityPairs = [((KeyPair.small 1).address .small, 100)] := by
  obtain ⟨r, hr, hheight, hchain, hfinality⟩ := Small.handle_some (e := Small.engine)
    (p := fun r => r.engine.chainState.height = 1 ∧
      r.engine.chainPairs = [((KeyPair.small 1).address .small, 100),
        ((KeyPair.small 2).address .small, 50)] ∧
      r.engine.finalityPairs = [((KeyPair.small 1).address .small, 100)])
    (show (Small.engine.handle .default Small.stakeReceived).map _ = _ by decide +kernel)
  exact ⟨r.engine, ⟨r, hr, rfl⟩, hheight, by decide +kernel, by decide +kernel, hchain, hfinality⟩

end

end Rustchain.Consensus
