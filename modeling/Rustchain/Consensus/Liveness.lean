import Rustchain.Consensus.Proposers
import Rustchain.Consensus.ValidatorSets

/-! # The chain can go on

As long as enough validators are active and their stakes add up to a positive number, the lottery
has a winner for the next block. Nothing looks at the set as a whole when one validator withdraws or
when the epoch transition leaves validators out, so the last active validator can leave, and then no
block can be proposed. Where each withdrawal and each transition leaves enough, every run does. -/

namespace Rustchain.Consensus

open Rustchain.Core Storage Vm Lib.Machine Lib.Maps Lib.Runs Lib.Ranking

variable {P : Primitives} {W : Wasmtime} {cfg : VmConfig} {g : GenesisConfig}

/-- What `active_validators` selects. -/
def isLive (v : ValidatorInfo) : Bool := v.isActive && v.jailedUntil.isNone

def liveStake (l : List ValidatorInfo) : ℕ := ((l.filter isLive).map (·.stake)).sum

/-- There are `need` active validators, with a positive total stake. -/
structure Alive (need : ℕ) (l : List ValidatorInfo) : Prop where
  enough : need ≤ (l.filter isLive).length
  funded : 0 < liveStake l

/-- The number of validators that a chain asks for. -/
def needed (g : GenesisConfig) : ℕ := max 1 g.consensusParams.minValidators

/-- A withdrawal leaves enough: the sender keeps the minimum and some stake is left, or the others
are enough without it. -/
def UnstakeOk (need : ℕ) (vs : ValidatorSet) (stx : SignedTransaction) : Prop :=
  stx.transaction.txType = .unstake → ∀ vi, vs.getValidator stx.sender = some vi →
    stx.transaction.value ≤ vi.stake →
      let others := vs.validators.eraseP fun v => decide (v.address = stx.sender)
      (vs.minStake ≤ vi.stake - stx.transaction.value ∧
        0 < vi.stake - stx.transaction.value + liveStake others) ∨ Alive need others

/-- A transition leaves enough: the minimum does not fall, there is room for those that are needed,
and enough active validators have the minimum, one of them a positive stake. -/
structure TransitionOk (need : ℕ) (params : ConsensusParams) (vs : ValidatorSet) : Prop where
  minimum : vs.minStake ≤ params.minStake
  room : need ≤ params.maxValidators
  enough : need ≤
    (vs.activeValidators.filter fun v => decide (params.minStake ≤ v.stake)).length
  funded : ∃ v ∈ vs.activeValidators, params.minStake ≤ v.stake ∧ 0 < v.stake

/-- Records that are not active lack the minimum. -/
def InactiveBelow (vs : ValidatorSet) : Prop :=
  ∀ v ∈ vs.validators, v.isActive = false → v.stake < vs.minStake

/-! ### One transaction -/

theorem length_live_split (before after : List ValidatorInfo) (v : ValidatorInfo) :
    ((before ++ v :: after).filter isLive).length =
      ((before ++ after).filter isLive).length + if isLive v then 1 else 0 := by
  rw [List.filter_append, List.filter_append, List.filter_cons, List.length_append,
    List.length_append]
  split_ifs
  · rw [List.length_cons]
    omega
  · omega

theorem liveStake_split (before after : List ValidatorInfo) (v : ValidatorInfo) :
    liveStake (before ++ v :: after) =
      liveStake (before ++ after) + if isLive v then v.stake else 0 := by
  unfold liveStake
  rw [List.filter_append, List.filter_append, List.filter_cons, List.map_append, List.map_append,
    List.sum_append, List.sum_append]
  split_ifs
  · rw [List.map_cons, List.sum_cons]
    omega
  · omega

theorem FirstRecord.eraseP_eq {l before after : List ValidatorInfo} {a : Address}
    {vi : ValidatorInfo} (h : FirstRecord l a before vi after) :
    l.eraseP (fun v => decide (v.address = a)) = before ++ after := by
  rw [h.split, List.eraseP_append_right _ fun v hv => by simpa using h.first v hv]
  simp [h.address]

variable {need : ℕ}

theorem Alive.replace {before after : List ValidatorInfo} {v w : ValidatorInfo}
    (h : Alive need (before ++ v :: after)) (hlive : isLive w = true) (hle : v.stake ≤ w.stake) :
    Alive need (before ++ w :: after) := by
  have hlen := h.enough
  have hpos := h.funded
  rw [length_live_split] at hlen
  rw [liveStake_split] at hpos
  refine ⟨?_, ?_⟩
  · rw [length_live_split, if_pos hlive]
    split_ifs at hlen <;> omega
  · rw [liveStake_split, if_pos hlive]
    split_ifs at hpos <;> omega

theorem Alive.append {l : List ValidatorInfo} (h : Alive need l) (v : ValidatorInfo) :
    Alive need (l ++ [v]) := by
  have hlen := length_live_split l [] v
  have hsum := liveStake_split l [] v
  rw [List.append_nil] at hlen hsum
  have henough := h.enough
  have hfunded := h.funded
  exact ⟨by omega, by omega⟩

/-- **A withdrawal** leaves a list alive if and only if the sender keeps enough or the others are
enough. -/
theorem alive_lowered_iff {before after : List ValidatorInfo} {v w : ValidatorInfo} {m : ℕ}
    (h : Alive need (before ++ v :: after)) (hj : v.jailedUntil = none)
    (hbelow : v.isActive = false → v.stake < m) (hle : w.stake ≤ v.stake)
    (hjail : w.jailedUntil = v.jailedUntil)
    (hactive : w.isActive = if w.stake < m then false else v.isActive) :
    Alive need (before ++ w :: after) ↔
      (m ≤ w.stake ∧ 0 < w.stake + liveStake (before ++ after)) ∨ Alive need (before ++ after) := by
  have hlen := h.enough
  have hpos := h.funded
  rw [length_live_split] at hlen
  rw [liveStake_split] at hpos
  by_cases hm : m ≤ w.stake
  · -- the sender keeps the minimum, so it was active and stays so
    have hv : v.isActive = true := by
      by_contra hv
      have := hbelow (by simpa using hv)
      omega
    have hlivev : isLive v = true := by rw [isLive, hv, hj]; rfl
    have hlivew : isLive w = true := by
      rw [isLive, hactive, if_neg (by omega), hv, hjail, hj]
      rfl
    rw [if_pos hlivev] at hlen hpos
    constructor
    · intro hw
      have hpos' := hw.funded
      rw [liveStake_split, if_pos hlivew] at hpos'
      exact .inl ⟨hm, by omega⟩
    · intro hor
      have hsum : 0 < w.stake + liveStake (before ++ after) := by
        rcases hor with ⟨-, hsum⟩ | hothers
        · exact hsum
        · have := hothers.funded
          omega
      refine ⟨?_, ?_⟩
      · rwa [length_live_split, if_pos hlivew]
      · rw [liveStake_split, if_pos hlivew]
        omega
  · -- the sender drops out
    have hlivew : isLive w = false := by rw [isLive, hactive, if_pos (by omega)]; rfl
    have hlenw := length_live_split before after w
    have hsumw := liveStake_split before after w
    rw [hlivew, if_neg (by simp), Nat.add_zero] at hlenw hsumw
    constructor
    · intro hw
      exact .inr ⟨by rw [← hlenw]; exact hw.enough, by rw [← hsumw]; exact hw.funded⟩
    · rintro (⟨hge, -⟩ | hothers)
      · exact absurd hge hm
      · exact ⟨by rw [hlenw]; exact hothers.enough, by rw [hsumw]; exact hothers.funded⟩

variable {vs : ValidatorSet}

/-- **One executed transaction** leaves a set alive if and only if it is no withdrawal or one that
leaves enough. -/
theorem alive_restake_iff {stx : SignedTransaction} (hj : JailFree vs) (hbelow : InactiveBelow vs)
    (h : Alive need vs.validators) (hovf : (restake vs stx).ovf = false) :
    Alive need (restake vs stx).val.validators ↔ UnstakeOk need vs stx := by
  have hr := restaking vs stx
  generalize restake vs stx = x at hr hovf
  unfold UnstakeOk
  cases hr with
  | idle _ hshort =>
    refine ⟨fun _ htype vi hget hle => ?_, fun _ => h⟩
    exact absurd (hshort htype vi hget) (Nat.not_lt.mpr hle)
  | @raised before after vi htype hrec =>
    have hvi : vi ∈ vs.validators := by simp [hrec.split]
    have hadd := addU_val (Bool.or_eq_false_iff.mp hovf).1
    rw [hrec.split] at h
    refine ⟨fun _ hunstake => (by rw [htype] at hunstake; cases hunstake), fun _ => ?_⟩
    rw [val_bind, hadd, withValidators_val]
    refine h.replace ?_ (Nat.le_add_right _ _)
    rw [isLive, hj vi hvi]
    rfl
  | @lowered before after vi htype hrec hle =>
    have hvi : vi ∈ vs.validators := by simp [hrec.split]
    have hget : vs.getValidator stx.sender = some vi := hrec.find?_eq
    rw [hrec.split] at h
    have hiff := alive_lowered_iff (w := { vi with
      stake := vi.stake - stx.transaction.value
      isActive := if vi.stake - stx.transaction.value < vs.minStake then false else vi.isActive })
      h (hj vi hvi) (hbelow vi hvi) (Nat.sub_le _ _) rfl rfl
    rw [hrec.eraseP_eq]
    refine hiff.trans ?_
    constructor
    · intro hok _ w hw _
      rw [hget] at hw
      obtain rfl := Option.some.inj hw
      exact hok
    · intro hok
      exact hok htype vi hget hle
  | joined htype _ =>
    refine ⟨fun _ hunstake => (by rw [htype] at hunstake; cases hunstake), fun _ => ?_⟩
    exact h.append _

theorem inactiveBelow_restake (stx : SignedTransaction) (h : InactiveBelow vs) :
    InactiveBelow (restake vs stx).val := by
  have hr := restaking vs stx
  generalize restake vs stx = x at hr
  unfold InactiveBelow at h
  cases hr with
  | idle _ _ => exact h
  | raised _ hrec =>
    rw [hrec.split, List.forall_mem_append, List.forall_mem_cons] at h
    rw [val_bind, InactiveBelow, withValidators_val, List.forall_mem_append, List.forall_mem_cons]
    exact ⟨h.1, fun hactive => (by cases hactive), h.2.2⟩
  | @lowered before after vi _ hrec _ =>
    rw [hrec.split, List.forall_mem_append, List.forall_mem_cons] at h
    rw [InactiveBelow, withValidators_val, List.forall_mem_append, List.forall_mem_cons]
    refine ⟨h.1, fun hinactive => ?_, h.2.2⟩
    dsimp only at hinactive ⊢
    split_ifs at hinactive with hlt
    · exact hlt
    · have := h.2.1 hinactive
      omega
  | joined _ _ =>
    rw [InactiveBelow, withValidators_val, List.forall_mem_append, List.forall_mem_singleton]
    exact ⟨h, fun hactive => (by cases hactive)⟩

/-! ### The epoch transition -/

variable {params : ConsensusParams}

theorem eligible_eq {now : ℕ} (hj : JailFree vs) (hbelow : InactiveBelow vs)
    (hmin : vs.minStake ≤ params.minStake) :
    eligible params now vs.validators =
      vs.activeValidators.filter fun v => decide (params.minStake ≤ v.stake) := by
  rw [eligible, map_unjail hj, ValidatorSet.activeValidators, List.filter_filter]
  refine List.filter_congr fun v hv => ?_
  by_cases hstake : params.minStake ≤ v.stake
  · have hactive : v.isActive = true := by
      by_contra hn
      have := hbelow v hv (by simpa using hn)
      omega
    simp [hstake, hactive, hj v hv]
  · simp [hstake]

theorem isLive_of_mem_eligible {now : ℕ} (hj : JailFree vs) (hbelow : InactiveBelow vs)
    (hmin : vs.minStake ≤ params.minStake) {v : ValidatorInfo}
    (hv : v ∈ eligible params now vs.validators) : isLive v = true := by
  rw [eligible_eq hj hbelow hmin, List.mem_filter] at hv
  exact (List.mem_filter.mp hv.1).2

theorem alive_nextSet {now : ℕ} (hneed : 0 < need) (hj : JailFree vs) (hbelow : InactiveBelow vs)
    (hok : TransitionOk need params vs) : Alive need (nextSet params now vs).validators := by
  have hlive : (nextValidators params now vs.validators).filter isLive =
      nextValidators params now vs.validators :=
    List.filter_eq_self.mpr fun v hv =>
      isLive_of_mem_eligible hj hbelow hok.minimum (mem_nextValidators hv)
  obtain ⟨v, hv, hstake, hpos⟩ := hok.funded
  have heligible : v ∈ eligible params now vs.validators := by
    rw [eligible_eq hj hbelow hok.minimum]
    exact List.mem_filter.mpr ⟨hv, decide_eq_true hstake⟩
  obtain ⟨w, hw, hge⟩ : ∃ w ∈ nextValidators params now vs.validators, v.stake ≤ w.stake :=
    exists_mem_best_ge (lt_of_lt_of_le hneed hok.room) heligible
  refine ⟨?_, ?_⟩
  · show need ≤ ((nextValidators params now vs.validators).filter isLive).length
    rw [hlive, nextValidators_eq_best, length_best, eligible_eq hj hbelow hok.minimum]
    exact Nat.le_min.mpr ⟨hok.room, hok.enough⟩
  · show 0 < liveStake (nextValidators params now vs.validators)
    rw [liveStake, hlive]
    have hle := List.single_le_sum (fun _ _ => Nat.zero_le _) w.stake
      (List.mem_map_of_mem (f := (·.stake)) hw)
    omega

theorem inactiveBelow_nextSet {now : ℕ} (hj : JailFree vs) (hbelow : InactiveBelow vs)
    (hmin : vs.minStake ≤ params.minStake) :
    InactiveBelow (nextSet params now vs) := by
  intro v hv hinactive
  have hlive := isLive_of_mem_eligible hj hbelow hmin (mem_nextValidators hv)
  rw [isLive, hinactive] at hlive
  cases hlive

/-! ### Runs -/

/-- Every executed withdrawal leaves enough of the set that it finds. -/
def UnstakesOk (need : ℕ) (vs : ValidatorSet) : List SignedTransaction → Prop
  | [] => True
  | stx :: txs => UnstakeOk need vs stx ∧ UnstakesOk need (restake vs stx).val txs

/-- The withdrawals and the transitions of a run leave enough, without overflow. -/
def KeepsAlive (P : Primitives) (W : Wasmtime) (cfg : VmConfig) (need : ℕ)
    (s : ChainState Database) : ChainOp W → Prop
  | .applyBlock ord cache block => NoOverflow P W cfg s (.applyBlock ord cache block) ∧
      UnstakesOk need s.currentEpoch.validatorSet
        (executedBy P W cfg s (.applyBlock ord cache block))
  | .advanceEpoch params _ => s.height = s.currentEpoch.endBlock →
      TransitionOk need params s.currentEpoch.validatorSet
  | _ => True

/-- What a run keeps. -/
structure AliveInv (need : ℕ) (vs : ValidatorSet) : Prop where
  jailFree : JailFree vs
  below : InactiveBelow vs
  alive : Alive need vs.validators
  total : ExactTotal vs

theorem aliveInv_restakes {need : ℕ} : ∀ {txs : List SignedTransaction} {vs : ValidatorSet},
    AliveInv need vs → UnstakesOk need vs txs → (restakes vs txs).ovf = false →
      AliveInv need (restakes vs txs).val
  | [], _, h, _, _ => h
  | stx :: txs, vs, h, hok, hovf => by
    obtain ⟨hovf1, hovf2⟩ := Bool.or_eq_false_iff.mp hovf
    have hnext : AliveInv need (restake vs stx).val :=
      ⟨(restaking vs stx).jailFree h.jailFree, inactiveBelow_restake stx h.below,
        (alive_restake_iff h.jailFree h.below h.alive hovf1).mpr hok.1,
        exactTotal_restake h.total hovf1⟩
    exact @aliveInv_restakes need txs _ hnext hok.2 hovf2

theorem filter_isLive_genesis (g : GenesisConfig) :
    g.toValidatorInfos.filter isLive = g.toValidatorInfos := by
  refine List.filter_eq_self.mpr fun v hv => ?_
  obtain ⟨gv, -, rfl⟩ := List.mem_map.mp hv
  rfl

theorem alive_genesis_iff (hv : g.validate = .ok ()) :
    Alive (needed g) (genesisValidatorSet g).validators ↔
      0 < (g.initialValidators.map (·.stake)).sum := by
  have hsum : liveStake g.toValidatorInfos = (g.initialValidators.map (·.stake)).sum := by
    rw [liveStake, filter_isLive_genesis, GenesisConfig.toValidatorInfos, List.map_map]
    rfl
  have hlen : needed g ≤ (g.toValidatorInfos.filter isLive).length := by
    obtain ⟨hne, hmin, -⟩ := GenesisConfig.validate_ok.mp hv
    have hpos := List.length_pos_iff.mpr hne
    rw [filter_isLive_genesis, GenesisConfig.toValidatorInfos, List.length_map]
    exact Nat.max_le.mpr ⟨hpos, hmin⟩
  constructor
  · intro h
    rw [← hsum]
    exact h.funded
  · intro h
    rw [← hsum] at h
    exact ⟨hlen, h⟩

theorem aliveInv_genesis (hv : g.validate = .ok ())
    (hpos : 0 < (g.initialValidators.map (·.stake)).sum)
    (hfits : (g.initialValidators.map (·.stake)).sum < 2 ^ 128) :
    AliveInv (needed g) (genesisValidatorSet g) := by
  refine ⟨jailFree_genesis g, fun v hm hinactive => ?_, (alive_genesis_iff hv).mpr hpos,
    exactTotal_genesis hfits⟩
  obtain ⟨gv, -, rfl⟩ := List.mem_map.mp hm
  cases hinactive

theorem aliveInv_setStep (hneed : 0 < need) (hgenesis : AliveInv need (genesisValidatorSet g))
    {s : ChainState Database} {op : ChainOp W} (h : AliveInv need s.currentEpoch.validatorSet)
    (hG : KeepsAlive P W cfg need s op) (hs : SetStep P W cfg g s op vs) : AliveInv need vs := by
  cases hs with
  | txs hovf => exact aliveInv_restakes h hG.2 (hovf hG.1)
  | epoch hend =>
    have hok := hG hend
    exact ⟨jailFree_nextSet h.jailFree, inactiveBelow_nextSet h.jailFree h.below hok.minimum,
      alive_nextSet hneed h.jailFree h.below hok, exactTotal_nextSet h.jailFree h.total⟩
  | withinEpoch _ => exact h
  | stored => exact h
  | restarted => exact hgenesis

theorem liveStake_lt (h : ExactTotal vs) : liveStake vs.validators < 2 ^ 128 := by
  refine lt_of_le_of_lt ?_ h.fits
  refine sum_map_le_of_subperm (List.Sublist.subperm ?_)
  refine List.monotone_filter_right vs.validators fun v hv => ?_
  exact (Bool.and_eq_true_iff.mp hv).1

/-- **The chain can go on.** The first set has enough active validators if and only if some stake of
the genesis file is positive. An executed transaction leaves enough if and only if it is no
withdrawal or one that leaves enough. Along every run whose withdrawals and transitions leave enough
there are enough active validators with a positive total stake, and the lottery has a winner. -/
theorem validators_never_run_out (P : Primitives) (W : Wasmtime) (cfg : VmConfig)
    (g : GenesisConfig) :
    (∀ s₀, Started P g s₀ → (Alive (needed g) s₀.currentEpoch.validatorSet.validators ↔
      0 < (g.initialValidators.map (·.stake)).sum)) ∧
    (∀ vs stx, JailFree vs → InactiveBelow vs → Alive (needed g) vs.validators →
      (restake vs stx).ovf = false →
      (Alive (needed g) (restake vs stx).val.validators ↔ UnstakeOk (needed g) vs stx)) ∧
    (0 < (g.initialValidators.map (·.stake)).sum →
      (g.initialValidators.map (·.stake)).sum < 2 ^ 128 → ∀ s₀ ops s, Started P g s₀ →
      Run (ChainStep P W cfg g) (KeepsAlive P W cfg (needed g)) s₀ ops s →
      max 1 g.consensusParams.minValidators ≤
        s.currentEpoch.validatorSet.activeValidators.length ∧
      0 < (s.currentEpoch.validatorSet.activeValidators.map (·.stake)).sum ∧
      ∀ parentHash n, ∃ a, (ProposerSelection.selectProposer P
        s.currentEpoch.validatorSet.activeValidators parentHash n).val = .ok a) := by
  refine ⟨?_, fun vs stx hj hb ha hovf => alive_restake_iff hj hb ha hovf, ?_⟩
  · rintro s₀ ⟨d, hd⟩
    rw [validatorSet_fromGenesis hd]
    exact alive_genesis_iff (fromGenesis_ok P hd).1
  · rintro hpos hfits s₀ ops s ⟨d, hd⟩ hrun
    have hgenesis := aliveInv_genesis (fromGenesis_ok P hd).1 hpos hfits
    have hneed : 0 < needed g := Nat.lt_of_lt_of_le Nat.zero_lt_one (Nat.le_max_left _ _)
    have hinv : AliveInv (needed g) s.currentEpoch.validatorSet := by
      refine hrun.invariant (I := fun s => AliveInv (needed g) s.currentEpoch.validatorSet) ?_
        fun t op u ht hG hs => aliveInv_setStep hneed hgenesis ht hG (setStep hs)
      rwa [validatorSet_fromGenesis hd]
    exact ⟨hinv.alive.enough, hinv.alive.funded,
      ProposerSelection.selectProposer_ok hinv.alive.funded (liveStake_lt hinv.total)⟩

namespace Small

def validator : ValidatorInfo :=
  .new ((KeyPair.small 1).address .small) ((KeyPair.small 1).publicKey .small) 100

def withdrawal (value : ℕ) : List SignedTransaction :=
  [tx 2 0 .transfer (some ((KeyPair.small 1).address .small)) 60000 [],
    tx 1 0 .unstake none value []]

def withdrawalBlock (value : ℕ) : Block := next genesisBlock (withdrawal value)

theorem withdrawal_ok :
    UnstakesOk (needed genesis) start.currentEpoch.validatorSet (withdrawal 40) := by
  refine ⟨fun htype => (by cases htype), fun _ vi hget _ => .inl ?_, trivial⟩
  have hvi : start.currentEpoch.validatorSet.getValidator ((KeyPair.small 1).address .small) =
      some validator := by decide +kernel
  obtain rfl := Option.some.inj (hvi.symm.trans hget)
  exact ⟨by decide, by decide +kernel⟩

end Small

theorem part_withdrawn_goes_on : ∃ s, ChainStep .small .small .default Small.genesis Small.start
      (.applyBlock (fun _ => .listed) ∅ (Small.withdrawalBlock 40)) s ∧
    s.currentEpoch.validatorSet.activeValidators.map (·.stake) = [60] ∧
    ∀ parentHash n, ∃ a, (ProposerSelection.selectProposer .small
      s.currentEpoch.validatorSet.activeValidators parentHash n).val = .ok a := by
  obtain ⟨a, rs, ha, hok, hstakes, hno⟩ := Small.apply_ok Small.start (Small.withdrawalBlock 40)
    (p := fun a => a.state.currentEpoch.validatorSet.activeValidators.map (·.stake) = [60] ∧
      a.overflow = false) (by decide +kernel)
  have hstep : ChainStep .small .small .default Small.genesis Small.start
    (.applyBlock (fun _ => .listed) ∅ (Small.withdrawalBlock 40)) a.state := ⟨a, rs, ha, hok, rfl⟩
  have hexec : executedBy .small .small .default Small.start
      (.applyBlock (fun _ => .listed) ∅ (Small.withdrawalBlock 40)) = Small.withdrawal 40 := by
    decide +kernel
  have hguard : KeepsAlive .small .small .default (needed Small.genesis) Small.start
      (.applyBlock (fun _ => .listed) ∅ (Small.withdrawalBlock 40)) := by
    refine ⟨fun b hb => ?_, by rw [hexec]; exact Small.withdrawal_ok⟩
    obtain rfl := Option.some.inj (ha.symm.trans hb)
    exact hno
  exact ⟨a.state, hstep, hstakes, ((validators_never_run_out .small .small .default
    Small.genesis).2.2 (by decide) (by decide) _ _ _ Small.started
      (Run.nil.snoc hguard hstep)).2.2⟩

/-- The only validator takes out its whole stake, and there is no proposer any more. -/
theorem last_validator_leaves : ∃ s, Reachable .small .small .default Small.genesis s ∧
    s.currentEpoch.validatorSet.activeValidators = [] ∧
    ∀ parentHash n, (ProposerSelection.selectProposer .small
      s.currentEpoch.validatorSet.activeValidators parentHash n).val =
        .error (.epoch "no active validators") := by
  obtain ⟨a, rs, ha, hok, hnone⟩ := Small.apply_ok Small.start (Small.withdrawalBlock 100)
    (p := fun a => a.state.currentEpoch.validatorSet.activeValidators = []) (by decide +kernel)
  refine ⟨a.state, Small.reachable_apply Small.reachable_start ha hok, hnone, fun h n => ?_⟩
  rw [hnone]
  rfl

end Rustchain.Consensus
