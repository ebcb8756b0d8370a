import Rustchain.Consensus.Arithmetic
import Rustchain.Vm.Spending

/-! # Balances and supply along runs

Nobody's balance falls but by a transaction that it signs or by the code of the contract at its
address (`balance_le_of_run`). And fees are taken out of the wealth of a chain and nothing is paid
out, so blocks should never add to it. There are two ways in which a contract can: the VM reads
balances from the database, and the deltas are added to the accounts as the block has left them so
far, with a sum below zero becoming zero; and the copy of the sender is written over its delta.
Where the contract does not sign the transaction and still has what the VM reads as its balance,
neither happens, and the wealth does not grow (`wealth_le_of_run`). -/

namespace Rustchain.Consensus

open Rustchain.Core Storage Vm Lib.Machine Lib.Maps Lib.Partial Lib.Runs

namespace Exec

/-- **A backed execution**: the contract is not the sender, and the account that its delta is added
to has what the VM reads as its balance. -/
structure Backed {M : Type} (stx : SignedTransaction) (run : ContractRun) (l : Loop M Database) :
    Prop where
  notSender : run.address ≠ stx.sender
  current : storedBalance l.storage run.address ≤ base l stx run run.address

/-! ### Sums of balances -/

section
variable {M : Type} {stx : SignedTransaction} {run : ContractRun} {l l' : Loop M Database}

/-- Addresses enough for the balances before and after, and for the deltas of an execution. -/
theorem exists_support (l l' : Loop M Database) (ctx : ExecutionContext) (a b : Address) :
    ∃ S : Finset Address, ((total (·.balance) l.accounts : ℕ) : ℤ) = ∑ x ∈ S, (l.balance x : ℤ) ∧
      ((total (·.balance) l'.accounts : ℕ) : ℤ) = ∑ x ∈ S, (l'.balance x : ℤ) ∧
      ctx.deltaSum = ∑ x ∈ S, ctx.delta x ∧ a ∈ S ∧ b ∈ S := by
  refine ⟨l.accounts.keys ∪ l'.accounts.keys ∪ ctx.balanceChanges.toFinmap.keys ∪ {a, b},
    total_eq_sum_balance l _ fun x hx => ?_, total_eq_sum_balance l' _ fun x hx => ?_, ?_, ?_, ?_⟩
  · simp [Finmap.mem_keys.mpr hx]
  · simp [Finmap.mem_keys.mpr hx]
  · refine (total_eq_sum id _ _ fun x hx => ?_).trans
      (Finset.sum_congr rfl fun x _ => ctx.weightAt_delta x)
    simp [Finmap.mem_keys.mpr hx]
  · simp
  · simp

/-- **A backed execution adds nothing**: the balances together fall by the gas at least. -/
theorem Settled.total_le (h : Settled stx run l l') (hb : Backed stx run l)
    (hs : Spends l.storage run.address run.context) :
    total (·.balance) l'.accounts + charged stx run ≤ total (·.balance) l.accounts := by
  have hpoint : ∀ a, (l'.balance a : ℤ) ≤ l.balance a + run.context.delta a -
      (if a = stx.sender then (paid stx : ℤ) + charged stx run else 0) +
      (if a = run.address then (paid stx : ℤ) else 0) := by
    intro a
    by_cases ha : a = stx.sender
    · subst ha
      have hsender := h.sender
      have hpos := hs.others stx.sender hb.notSender.symm
      rw [if_pos rfl, if_neg hb.notSender.symm]
      omega
    · rw [if_neg ha]
      by_cases hc : a = run.address
      · subst hc
        have hcovered := hs.covered
        have hcurrent := hb.current
        rw [if_pos rfl, h.other_eq ha (by omega), base, paid]
        by_cases hd : stx.transaction.txType = .contractDeploy
        · rw [if_pos ⟨hd, rfl⟩, if_pos hd]
          omega
        · rw [if_neg fun hd' => hd hd'.1, if_neg hd]
          omega
      · have hpos := hs.others a hc
        rw [if_neg hc, h.other_eq ha (by omega), base, if_neg fun hd => hc hd.2]
        omega
  obtain ⟨S, hbefore, hafter, hdelta, hsender, haddress⟩ :=
    exists_support l l' run.context stx.sender run.address
  have hsum := Finset.sum_le_sum fun a (_ : a ∈ S) => hpoint a
  rw [Finset.sum_add_distrib, Finset.sum_sub_distrib, Finset.sum_add_distrib, ← hdelta, h.balanced,
    Finset.sum_ite_eq', Finset.sum_ite_eq', if_pos hsender, if_pos haddress, ← hbefore,
    ← hafter] at hsum
  omega

/-- A transaction that is not applied takes at most from the sender. -/
theorem Unapplied.total_le (h : Unapplied stx l l')
    (hp : (prepay stx.transaction (accountOf l.accounts stx.sender)).ovf = false) :
    total (·.balance) l'.accounts ≤ total (·.balance) l.accounts := by
  obtain ⟨hpre, hle⟩ := prepay_balance hp
  have hpoint : ∀ a, l'.balance a ≤ l.balance a := by
    intro a
    unfold Loop.balance
    by_cases ha : a = stx.sender
    · subst ha
      rcases h.sender with hx | ⟨gasUsed, hx⟩
      · rw [hx, hpre]
        omega
      · have hbought := charged_add_refund stx.transaction gasUsed
        have hrefund := Nat.mod_le
          ((stx.transaction.gasLimit - gasUsed) * stx.transaction.gasPrice) (2 ^ 64)
        rw [hx]
        refine (Nat.mod_le _ (2 ^ 128)).trans ?_
        rw [hpre]
        show _ + (stx.transaction.gasLimit - gasUsed) * stx.transaction.gasPrice % 2 ^ 64 ≤ _
        omega
    · unfold accountOf
      rw [h.others a ha]
  obtain ⟨S, hbefore, hafter, -, -, -⟩ :=
    exists_support l l' .blank stx.sender stx.sender
  have hsum := Finset.sum_le_sum fun a (_ : a ∈ S) => Int.ofNat_le.mpr (hpoint a)
  omega

end

/-! ### One transaction -/

section
variable {P : Primitives} {W : Wasmtime} {cfg : VmConfig} {ord : HashOrders} {block : Block}
  {i : ℕ} {stx : SignedTransaction} {l l' : Loop W.Module Database} {o : Outcome}

variable (hc : RunsContract stx) (hp : Passes l stx)
  (h : executeTx P W cfg ord block i stx l = some ((), l'))
include hc hp h

theorem spends_of_success {run : ContractRun}
    (ho : l'.receipts = l.receipts ++ [receiptOf P block i stx o]) (hs : o.status = .success)
    (hov : l'.overflow = false) (hrun : contractRun P W cfg block stx l = some run) :
    Spends l.storage run.address run.context := by
  obtain ⟨x, l1, ht, rfl⟩ := executeTx_outcome hp h ho
  have hov1 : l1.overflow = false := (Bool.or_eq_false_iff.mp hov).1
  unfold executeType at ht
  rcases hc with hc | hc
  · rw [hc] at ht
    cases deployRun_of_eq_some P W cfg ord ht with
    | refused => cases hs
    | @done r s l2 _ _ hvm hflush hrefund =>
      obtain ⟨b, ov, rfl, rfl, hb⟩ := refundGas_spec hrefund
      have hov2 := (Bool.or_eq_false_iff.mp (hb hov1).1).1
      have hovs := (balance_flush hflush hov2).1
      obtain rfl := Option.some.inj (hrun.symm.trans (contractRun_deploy hc hvm))
      exact spends_deployContract (fun _ => rfl) hvm hovs
  · rw [hc] at ht
    cases callRun_of_eq_some P W cfg ord ht with
    | noCode => cases hs
    | refused => cases hs
    | failed _ _ hst => exact absurd hs hst
    | done hcode hvm hst hflush hrefund =>
      obtain ⟨b, ov, rfl, rfl, hb⟩ := refundGas_spec hrefund
      have hovs := (balance_flush hflush (hb hov1).1).1
      obtain rfl := Option.some.inj (hrun.symm.trans (contractRun_call hc hcode hvm hst))
      exact spends_callContract (fun _ => rfl) hvm hst hovs

theorem unapplied_of_failure
    (ho : l'.receipts = l.receipts ++ [receiptOf P block i stx o]) (hs : o.status ≠ .success) :
    Unapplied stx l l' := by
  obtain ⟨x, l1, ht, rfl⟩ := executeTx_outcome hp h ho
  unfold executeType at ht
  rcases hc with hc | hc
  · rw [hc] at ht
    exact (deploy_status hc ht).2 hs
  · rw [hc] at ht
    exact (call_status hc ht).2 hs

theorem wealth_le_of_backed (hov : l'.overflow = false)
    (hb : ∀ run, contractRun P W cfg block stx l = some run → Backed stx run l) :
    l'.wealth ≤ l.wealth := by
  have hset : l'.validatorSet = l.validatorSet := by
    rw [(executeTx_set h).1, if_pos hp, restakes_of_noStaking fun t ht => ?_]
    · rfl
    · obtain rfl := List.mem_singleton.mp ht
      rcases hc with hc | hc <;> simp [hc]
  obtain ⟨o, ho⟩ := executeTx_receipt h
  have htotal : total (·.balance) l'.accounts ≤ total (·.balance) l.accounts := by
    by_cases hs : o.status = .success
    · obtain ⟨run, hrun, hsettled⟩ := settled_of_success P W cfg ord hc hp h ho hs hov
      have hle := hsettled.total_le (hb run hrun) (spends_of_success hc hp h ho hs hov hrun)
      omega
    · refine (unapplied_of_failure hc hp h ho hs).total_le ?_
      obtain ⟨x, l1, ht, rfl⟩ := executeTx_outcome hp h ho
      have hov1 : l1.overflow = false := (Bool.or_eq_false_iff.mp hov).1
      have hentered := (executeType_branch P W cfg ord ht).1.overflow hov1
      exact (Bool.or_eq_false_iff.mp hentered).2
  unfold Loop.wealth
  rw [hset]
  omega

theorem balance_le_of_contract (hov : l'.overflow = false) {a : Address} (ha : a ≠ stx.sender)
    (hrun : ∀ run, contractRun P W cfg block stx l = some run → run.address ≠ a) :
    l.balance a ≤ l'.balance a := by
  obtain ⟨o, ho⟩ := executeTx_receipt h
  by_cases hs : o.status = .success
  · obtain ⟨run, hr, hsettled⟩ := settled_of_success P W cfg ord hc hp h ho hs hov
    have hne := (hrun run hr).symm
    have hpos := (spends_of_success hc hp h ho hs hov hr).others a hne
    rw [hsettled.others a ha, base, if_neg fun hd => hne hd.2]
    omega
  · unfold Loop.balance accountOf
    rw [(unapplied_of_failure hc hp h ho hs).others a ha]

omit hc in
theorem balance_le_of_native (hn : Native stx) (hov : l'.overflow = false) {a : Address}
    (ha : a ≠ stx.sender) : l.balance a ≤ l'.balance a := by
  obtain ⟨x, o, l1, ht, rfl⟩ := executeTx_run P W cfg ord hp h
  rw [balance_finished_ne _ _ _ _ ha]
  unfold executeType at ht
  rcases hn with hn | hn | hn
  · rw [hn] at ht
    obtain ⟨tb, b, ov, -, rfl, hspec⟩ := executeTransfer_spec ht
    obtain ⟨-, htb, -⟩ := hspec (Bool.or_eq_false_iff.mp hov).1
    show _ ≤ (accountOf (Loop.put _ _ _).accounts a).balance
    rw [Loop.accounts_put, accountOf_insert]
    split_ifs with heq
    · rw [heq, htb]
      exact Nat.le_add_right _ _
    · exact le_rfl
  · rw [hn] at ht
    unfold Loop.balance
    rw [(executeStake_spec ht).1.accounts_eq]
    exact le_rfl
  · rw [hn] at ht
    unfold Loop.balance
    rw [(executeUnstake_spec ht).1.accounts_eq]
    exact le_rfl

omit hc hp in
/-- **One transaction** takes from nobody but its sender and the contract that it runs. -/
theorem balance_le_of_executeTx (hov : l'.overflow = false) {a : Address}
    (ha : Passes l stx → stx.sender ≠ a ∧
      ∀ run, contractRun P W cfg block stx l = some run → run.address ≠ a) :
    l.balance a ≤ l'.balance a := by
  by_cases hp : Passes l stx
  · obtain ⟨hsender, hrun⟩ := ha hp
    by_cases hc : RunsContract stx
    · exact balance_le_of_contract hc hp h hov hsender.symm hrun
    · exact balance_le_of_native hp h (not_runsContract_iff.mp hc) hov hsender.symm
  · obtain ⟨msg, ov, hs⟩ := executeTx_skip P W cfg ord block i hp
    rw [hs] at h
    obtain ⟨-, rfl⟩ := some_pair_inj h
    exact le_rfl

omit hc hp in
/-- **One transaction** does not add to the wealth if its execution is backed. -/
theorem wealth_le_of_executeTx (hov : l'.overflow = false) (hb : Passes l stx →
    ∀ run, contractRun P W cfg block stx l = some run → Backed stx run l) :
    l'.wealth ≤ l.wealth := by
  by_cases hc : RunsContract stx
  · by_cases hp : Passes l stx
    · exact wealth_le_of_backed hc hp h hov (hb hp)
    · exact (wealth_skip hp h).le
  · exact wealth_le_of_native (not_runsContract_iff.mp hc) h hov

end

/-- What holds before the first transaction and is kept at every turn holds after the last one. -/
theorem turns_invariant {P : Primitives} {W : Wasmtime} {cfg : VmConfig} {ord : ℕ → HashOrders}
    {block : Block} {start lend : Loop W.Module Database} {I : Loop W.Module Database → Prop}
    (h0 : I start) (hstep : ∀ i stx l l', AtTurn P W cfg ord block start i stx l l' →
      l'.overflow = false → I l → I l')
    (h : executeTxs P W cfg ord block 0 block.transactions start = some ((), lend))
    (hov : lend.overflow = false) : I lend := by
  have hloop : ∀ n ≤ block.transactions.length, ∀ l,
      executeTxs P W cfg ord block 0 (block.transactions.take n) start = some ((), l) →
        l.overflow = false → I l := by
    intro n
    induction n with
    | zero =>
      intro _ l h _
      obtain ⟨-, rfl⟩ := pure_eq_some h
      exact h0
    | succ n ih =>
      intro hn l' h hov'
      obtain ⟨l, hturn⟩ := exists_turn_of_take (List.getElem?_eq_getElem hn) h
      exact hstep _ _ _ _ hturn hov'
        (ih (by omega) l hturn.before ((executeTx_effect hturn.step).overflow hov'))
  rw [← List.take_length (l := block.transactions)] at h
  exact hloop _ le_rfl lend h hov

end Exec

/-! ### Blocks, epochs and runs -/

section
variable (P : Primitives) (W : Wasmtime) (cfg : VmConfig)

/-- A block without overflow in which `Q` holds of every transaction that passes the checks, with
the loop state at its turn. -/
def EachTurn (Q : Block → SignedTransaction → Loop W.Module Database → Prop)
    (s : ChainState Database) : ChainOp W → Prop
  | .applyBlock ord cache block =>
    NoOverflow P W cfg s (.applyBlock ord cache block) ∧
      ∀ i stx l l', Exec.AtTurn P W cfg ord block (s.toLoop cache) i stx l l' →
        Exec.Passes l stx → Q block stx l
  | _ => True

/-- The address `a` neither signs a transaction nor is a contract that one runs. -/
def Bystander (a : Address) : ChainState Database → ChainOp W → Prop :=
  EachTurn P W cfg fun block stx l => stx.sender ≠ a ∧
    ∀ run, Exec.contractRun P W cfg block stx l = some run → run.address ≠ a

/-- Steps whose contract executions are all backed. A restart is none of them: it puts the stakes of
the genesis file in the place of those in memory. -/
def BackedStep (s : ChainState Database) (op : ChainOp W) : Prop :=
  op ≠ .restart ∧ EachTurn P W cfg (fun block stx l =>
    ∀ run, Exec.contractRun P W cfg block stx l = some run → Exec.Backed stx run l) s op

variable {P W cfg} {g : GenesisConfig} {s s' : ChainState Database} {ord : ℕ → HashOrders}
  {cache : HashMap Blake3Hash W.Module} {block : Block}

/-- The invariant rule for an applied block, whose accounts and validators are those of the loop. -/
theorem applied_invariant {I : Loop W.Module Database → Prop}
    {Q : Block → SignedTransaction → Loop W.Module Database → Prop}
    (hk : Keyed s.storage.accounts) (h : ChainStep P W cfg g s (.applyBlock ord cache block) s')
    (hQ : EachTurn P W cfg Q s (.applyBlock ord cache block)) (h0 : I (s.toLoop cache))
    (hstep : ∀ i stx l l', Exec.executeTx P W cfg (ord i) block i stx l = some ((), l') →
      l'.overflow = false → (Exec.Passes l stx → Q block stx l) → I l → I l') :
    ∃ l, I l ∧ s'.storage.accounts = l.accounts ∧
      s'.currentEpoch.validatorSet = l.validatorSet := by
  obtain ⟨a, rs, ha, hok, rfl⟩ := h
  have hov := hQ.1 a ha
  obtain ⟨-, -, l, hl, rfl⟩ := applyBlock_ok ha hok
  refine ⟨l, Exec.turns_invariant h0 (fun i stx l l' hturn hov' => ?_) hl hov, ?_, rfl⟩
  · exact hstep i stx l l' hturn.step hov' (hQ.2 i stx l l' hturn)
  · refine accounts_commitBlock ((Exec.executeTxs_effect hl).keyed ?_) _ _
    rwa [Loop.accounts_toLoop]

theorem balance_le_of_applied {a : Address} (hk : Keyed s.storage.accounts)
    (h : ChainStep P W cfg g s (.applyBlock ord cache block) s')
    (hb : Bystander P W cfg a s (.applyBlock ord cache block)) :
    (accountOf s.storage.accounts a).balance ≤ (accountOf s'.storage.accounts a).balance := by
  obtain ⟨l, hl, haccounts, -⟩ := applied_invariant
    (I := fun l => (accountOf s.storage.accounts a).balance ≤ l.balance a) hk h hb
    (by rw [Loop.balance, Loop.accounts_toLoop]) fun _ _ _ _ hstep hov hQ hle =>
      hle.trans (Exec.balance_le_of_executeTx hstep hov hQ)
  rwa [haccounts]

theorem wealth_le_of_applied (hk : Keyed s.storage.accounts)
    (h : ChainStep P W cfg g s (.applyBlock ord cache block) s')
    (hb : BackedStep P W cfg s (.applyBlock ord cache block)) : wealth s' ≤ wealth s := by
  obtain ⟨l, hl, haccounts, hset⟩ := applied_invariant (I := fun l => l.wealth ≤ wealth s) hk h hb.2
    wealth_toLoop.le fun _ _ _ _ hstep hov hQ hle =>
      (Exec.wealth_le_of_executeTx hstep hov hQ).trans hle
  unfold wealth Loop.wealth at *
  rwa [haccounts, hset]

theorem stake_unjail (params : ConsensusParams) (now : ℕ) (v : ValidatorInfo) :
    (unjail params now v).stake = v.stake := by
  unfold unjail
  split
  · split_ifs <;> rfl
  · rfl

/-- The validators of the next epoch have no more stake together than those of the current one. -/
theorem stakeTotal_nextValidators_le (params : ConsensusParams) (now : ℕ)
    (l : List ValidatorInfo) :
    ((nextValidators params now l).map (·.stake)).sum ≤ (l.map (·.stake)).sum := by
  unfold nextValidators
  set kept := (l.map (unjail params now)).filter fun v => decide (params.minStake ≤ v.stake)
  calc (((kept.insertionSort fun a b => b.stake ≤ a.stake).take params.maxValidators).map
        (·.stake)).sum
      ≤ ((kept.insertionSort fun a b => b.stake ≤ a.stake).map (·.stake)).sum :=
        ((List.take_sublist _ _).map _).sum_le_sum fun _ _ => Nat.zero_le _
    _ = (kept.map (·.stake)).sum :=
        ((List.perm_insertionSort _ kept).map _).sum_eq
    _ ≤ ((l.map (unjail params now)).map (·.stake)).sum :=
        (List.filter_sublist.map _).sum_le_sum fun _ _ => Nat.zero_le _
    _ = (l.map (·.stake)).sum := by
        rw [List.map_map]
        exact congrArg List.sum (List.map_congr_left fun v _ => stake_unjail params now v)

theorem wealth_maybeAdvanceEpoch_le (params : ConsensusParams) (now : ℕ) :
    wealth (maybeAdvanceEpoch params now s).val.2 ≤ wealth s := by
  unfold wealth
  rw [accounts_maybeAdvanceEpoch, maybeAdvanceEpoch_eq]
  split_ifs
  · exact Nat.add_le_add_left (stakeTotal_nextValidators_le params now _) _
  · exact le_rfl

/-- **The supply never grows**: from every reachable state, along every run of blocks, epoch
transitions and stored validators in which no arithmetic overflows and every contract execution is
backed, all balances and stakes together do not get more. -/
theorem wealth_le_of_run (P : Primitives) (W : Wasmtime) (cfg : VmConfig) {g : GenesisConfig}
    {s t : ChainState Database} {ops : List (ChainOp W)} (hr : Reachable P W cfg g s)
    (h : Run (ChainStep P W cfg g) (BackedStep P W cfg) s ops t) : wealth t ≤ wealth s := by
  refine (h.invariant (I := fun u => NodeInv u ∧ wealth u ≤ wealth s) ⟨hr.inv P, le_rfl⟩ ?_).2
  rintro u op v ⟨hinv, hle⟩ hb hstep
  refine ⟨nodeInv_step P hinv hstep, le_trans ?_ hle⟩
  cases op with
  | applyBlock ord cache block => exact wealth_le_of_applied hinv.keyed hstep hb
  | advanceEpoch params now =>
    obtain rfl := hstep
    exact wealth_maybeAdvanceEpoch_le params now
  | putValidator v =>
    obtain rfl := hstep
    exact le_rfl
  | restart => exact absurd rfl hb.1

end

def Small.valueBlock : Block := Small.next Small.genesisBlock [Small.deployTx]

theorem Small.eachTurn_valueBlock
    {Q : Block → SignedTransaction → Loop Small.Module Database → Prop}
    (h : Q Small.valueBlock Small.deployTx (Small.start.toLoop ∅)) :
    EachTurn .small .small .default Q Small.start
      (.applyBlock (fun _ => .listed) ∅ Small.valueBlock) := by
  obtain ⟨a, rs, ha, -, hov⟩ := Small.apply_ok Small.start Small.valueBlock
    (p := fun a => a.overflow = false) (by decide +kernel)
  refine ⟨fun a' ha' => ?_, fun i stx l l' hturn _ => ?_⟩
  · obtain rfl := Option.some.inj (ha.symm.trans ha')
    exact hov
  · obtain ⟨hlt, hget⟩ := List.getElem?_eq_some_iff.mp hturn.tx
    obtain rfl : i = 0 := Nat.lt_one_iff.mp hlt
    obtain rfl : Small.deployTx = stx := hget
    obtain ⟨-, rfl⟩ := pure_eq_some hturn.before
    exact h

theorem Small.run_valueBlock {G : ChainState Database → ChainOp .small → Prop}
    (h : G Small.start (.applyBlock (fun _ => .listed) ∅ Small.valueBlock)) :
    ∃ t, Run (ChainStep .small .small .default Small.genesis) G Small.start
      [.applyBlock (fun _ => .listed) ∅ Small.valueBlock] t := by
  obtain ⟨a, rs, ha, hok, -⟩ := Small.apply_ok Small.start Small.valueBlock
    (p := fun _ => True) (by decide +kernel)
  exact ⟨a.state, .snoc .nil h ⟨a, rs, ha, hok, rfl⟩⟩

theorem value_block_keeps_supply : ∃ t, Run (ChainStep .small .small .default Small.genesis)
    (BackedStep .small .small .default) Small.start
      [.applyBlock (fun _ => .listed) ∅ Small.valueBlock] t ∧ wealth t ≤ wealth Small.start := by
  have hcheck : ((Small.runContract Small.start Small.deployTx).all fun run =>
      decide (run.address ≠ Small.deployTx.sender ∧ storedBalance Small.start.storage run.address ≤
        Exec.base (Small.start.toLoop (∅ : HashMap Blake3Hash Small.Module)) Small.deployTx run
          run.address)) = true := by decide +kernel
  obtain ⟨t, ht⟩ := Small.run_valueBlock (G := BackedStep .small .small .default)
    ⟨nofun, Small.eachTurn_valueBlock fun run hrun => by
      rw [show Small.runContract Small.start Small.deployTx = some run from hrun] at hcheck
      exact ⟨(of_decide_eq_true hcheck).1, (of_decide_eq_true hcheck).2⟩⟩
  exact ⟨t, ht, wealth_le_of_run .small .small .default Small.reachable_start ht⟩

end Rustchain.Consensus
