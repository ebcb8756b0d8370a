import Mathlib.Algebra.Order.BigOperators.Group.List
import Rustchain.Consensus.Node

/-! # Conservation of tokens

The wealth of a chain is the sum of all balances and all stakes. A block of transfers, stakes and
unstakes takes the fees of its executed transactions out of it, and besides that the values of the
executed transfers from an account to itself: there the recipient's copy and the sender's copy are
two copies of one account, and the sender's is written last. -/

namespace Rustchain.Consensus

open Rustchain.Core Storage Vm Lib.Machine Lib.Maps Lib.Partial

/-- All balances and all stakes. -/
def wealth (s : ChainState Database) : ℕ :=
  total (·.balance) s.storage.accounts + stakeTotal s.currentEpoch.validatorSet

/-- All balances and all stakes, as the loop sees them. -/
def Loop.wealth {M : Type} (l : Loop M Database) : ℕ :=
  total (·.balance) l.accounts + stakeTotal l.validatorSet

/-- The transaction types that do not run a contract. -/
def Native (stx : SignedTransaction) : Prop :=
  stx.transaction.txType = .transfer ∨ stx.transaction.txType = .stake ∨
    stx.transaction.txType = .unstake

/-- The fee of an executed transaction. -/
def fee (stx : SignedTransaction) : ℕ :=
  min stx.transaction.gasLimit baseGas * stx.transaction.gasPrice

/-- A transfer from an account to itself. -/
def SelfTransfer (stx : SignedTransaction) : Prop :=
  stx.transaction.txType = .transfer ∧ stx.transaction.toAddr.getD Address.zero = stx.sender

instance (stx : SignedTransaction) : Decidable (SelfTransfer stx) := by
  unfold SelfTransfer; infer_instance

/-- What gets lost in an executed transaction. -/
def lost (stx : SignedTransaction) : ℕ :=
  if SelfTransfer stx then stx.transaction.value else 0

namespace Exec

variable {P : Primitives} {W : Wasmtime} {cfg : VmConfig}

/-! ### One transaction -/

/-- The wealth once the copy `x` of the account of `sender` is written back. -/
def wealthWith {M : Type} (l : Loop M Database) (sender : Address) (x : Account) : ℕ :=
  total (·.balance) (l.accounts.insert sender x) + stakeTotal l.validatorSet

theorem wealthWith_add {M : Type} (l : Loop M Database) (sender : Address) (x : Account) :
    wealthWith l sender x + (accountOf l.accounts sender).balance = l.wealth + x.balance := by
  have h := total_balance_insert l.accounts sender x
  unfold wealthWith Loop.wealth
  omega

/-- A transfer adds its value to the accounts but for the sender's copy, which gives it; a recipient
that is the sender is written over. -/
theorem wealth_executeTransfer {M : Type} {tx : Transaction} {sender : Address} {x x' : Account}
    {o : Outcome} {l l' : Loop M Database} (h : executeTransfer tx x l = some ((x', o), l'))
    (hov : l'.overflow = false) :
    wealthWith l' sender x' + (accountOf l.accounts sender).balance +
        (if tx.toAddr.getD Address.zero = sender then tx.value else 0) =
      l.wealth + x.balance + (tx.gasLimit - baseGas) * tx.gasPrice := by
  obtain ⟨tb, b, ov, rfl, rfl, hspec⟩ := executeTransfer_spec h
  obtain ⟨-, htb, hle, hb⟩ := hspec hov
  set target := tx.toAddr.getD Address.zero
  set y : Account := { accountOf l.accounts target with balance := tb } with hy
  have hback := wealthWith_add (l.put target y) sender { x with balance := b }
  have hto : (l.put target y).wealth + (accountOf l.accounts target).balance = l.wealth + tb := by
    have ht := total_balance_insert l.accounts target y
    unfold Loop.wealth
    rw [Loop.accounts_put]
    show _ + stakeTotal l.validatorSet + _ = _
    have hyb : y.balance = tb := rfl
    omega
  rw [Loop.accounts_put, accountOf_insert] at hback
  show wealthWith (l.put target y) sender { x with balance := b } + _ + _ = _
  dsimp only at hback
  split_ifs at hback ⊢ with h1 h2 h2
  · subst h1
    have hyb : y.balance = tb := rfl
    omega
  · exact absurd h1.symm h2
  · exact absurd h2.symm h1
  · omega

theorem wealth_restaked {M : Type} {sender : Address} {x x' : Account} {r : ℕ}
    {l l' : Loop M Database} (h : Restaked l l' x x')
    (hb : x'.balance + stakeTotal l'.validatorSet = x.balance + stakeTotal l.validatorSet + r) :
    wealthWith l' sender x' + (accountOf l.accounts sender).balance = l.wealth + x.balance + r := by
  have hback := wealthWith_add l' sender x'
  unfold Loop.wealth at hback ⊢
  rw [h.accounts_eq] at hback
  omega

theorem wealth_executeTx {ord : HashOrders} {block : Block} {i : ℕ} {stx : SignedTransaction}
    {l l' : Loop W.Module Database} (hn : Native stx) (hp : Passes l stx)
    (h : executeTx P W cfg ord block i stx l = some ((), l')) (hov : l'.overflow = false) :
    l'.wealth + fee stx + lost stx = l.wealth := by
  obtain ⟨x, o, l1, ht, rfl⟩ := executeTx_run P W cfg ord hp h
  have hov1 : l1.overflow = false := (Bool.or_eq_false_iff.mp hov).1
  have hove : (entered l stx).overflow = false :=
    (executeType_branch P W cfg ord ht).1.overflow hov1
  obtain ⟨hpb, hple⟩ := prepay_balance (Bool.or_eq_false_iff.mp hove).2
  have hfee : fee stx + (stx.transaction.gasLimit - baseGas) * stx.transaction.gasPrice =
      stx.transaction.gasLimit * stx.transaction.gasPrice := charged_add_refund _ _
  have hl' : (finished l1 stx.sender x o.gasUsed (receiptOf P block i stx o)).wealth =
      wealthWith l1 stx.sender x := by
    unfold Loop.wealth
    rw [accounts_finished]
    rfl
  rw [hl']
  have hbranch : wealthWith l1 stx.sender x +
        (accountOf (entered l stx).accounts stx.sender).balance + lost stx =
      (entered l stx).wealth +
        (prepay stx.transaction (accountOf l.accounts stx.sender)).val.balance +
        (stx.transaction.gasLimit - baseGas) * stx.transaction.gasPrice := by
    unfold executeType at ht
    rcases hn with hn | hn | hn
    · rw [hn] at ht
      have hlost : lost stx = if stx.transaction.toAddr.getD Address.zero = stx.sender then
          stx.transaction.value else 0 := by simp [lost, SelfTransfer, hn]
      rw [hlost]
      exact wealth_executeTransfer ht hov1
    · rw [hn] at ht
      have hlost : lost stx = 0 := by simp [lost, SelfTransfer, hn]
      obtain ⟨hr, hspec⟩ := executeStake_spec ht
      obtain ⟨hle, hb, hst⟩ := hspec hov1
      rw [hlost]
      exact wealth_restaked hr (by omega)
    · rw [hn] at ht
      have hlost : lost stx = 0 := by simp [lost, SelfTransfer, hn]
      obtain ⟨hr, hspec⟩ := executeUnstake_spec ht
      rw [hlost]
      exact wealth_restaked hr (hspec hov1)
  have hwealth : (entered l stx).wealth = l.wealth := rfl
  rw [accounts_entered, hwealth] at hbranch
  omega

theorem wealth_skip {ord : HashOrders} {block : Block} {i : ℕ} {stx : SignedTransaction}
    {l l' : Loop W.Module Database} (hp : ¬ Passes l stx)
    (h : executeTx P W cfg ord block i stx l = some ((), l')) : l'.wealth = l.wealth := by
  obtain ⟨msg, ov, hs⟩ := executeTx_skip P W cfg ord block i hp
  rw [hs] at h
  obtain ⟨-, rfl⟩ := some_pair_inj h
  rfl

/-! ### The loop -/

/-- **The account of a block**: the loop takes out of the wealth the fees of the transactions it
executes and what gets lost in them. -/
theorem wealth_executeTxs {ord : ℕ → HashOrders} {block : Block} :
    ∀ {txs : List SignedTransaction} {i : ℕ} {l l' : Loop W.Module Database},
      executeTxs P W cfg ord block i txs l = some ((), l') → (∀ stx ∈ txs, Native stx) →
      l'.overflow = false →
      l'.wealth + ((executed P W cfg ord block i txs l).map fee).sum +
        ((executed P W cfg ord block i txs l).map lost).sum = l.wealth
  | [], i, l, l', h, _, _ => by
    obtain ⟨-, rfl⟩ := pure_eq_some h
    rfl
  | stx :: txs, i, l, l', h, hn, hov => by
    unfold executeTxs at h
    obtain ⟨_, l1, h1, h2⟩ := bind_eq_some.mp h
    have ih := wealth_executeTxs h2 (fun t ht => hn t (by simp [ht])) hov
    have hov1 : l1.overflow = false := (executeTxs_effect h2).overflow hov
    unfold executed
    rw [h1]
    by_cases hp : Passes l stx
    · have hstep := wealth_executeTx (hn stx (by simp)) hp h1 hov1
      simp only [if_pos hp, List.map_append, List.sum_append, List.map_cons, List.map_nil,
        List.sum_cons, List.sum_nil]
      omega
    · have hstep := wealth_skip hp h1
      simp only [if_neg hp, List.nil_append]
      omega

end Exec

/-! ### Blocks -/

theorem sum_lost_eq_zero_iff (l : List SignedTransaction) :
    (l.map lost).sum = 0 ↔ ∀ stx ∈ l, ¬ (SelfTransfer stx ∧ 0 < stx.transaction.value) := by
  rw [List.sum_eq_zero_iff]
  constructor
  · rintro h stx hs ⟨hself, hpos⟩
    have h0 := h _ (List.mem_map_of_mem hs)
    rw [lost, if_pos hself] at h0
    omega
  · intro h n hn
    obtain ⟨stx, hs, rfl⟩ := List.mem_map.mp hn
    unfold lost
    split_ifs with hself
    · have := h stx hs
      simp only [hself, true_and] at this
      omega
    · rfl

/-- **Conservation**: a block without contract transactions that is applied to a reachable state
takes exactly the fees out of the wealth if and only if no transaction that it executes is a
transfer of a positive value from an account to itself. -/
theorem block_conserves_iff (P : Primitives) (W : Wasmtime) (cfg : VmConfig) {g : GenesisConfig}
    {s : ChainState Database} (hr : Reachable P W cfg g s) {ord : ℕ → HashOrders}
    {cache : HashMap Blake3Hash W.Module} {block : Block} {a : Applied W.Module Database}
    {rs : List TransactionReceipt} (h : applyBlock P W cfg ord cache s block = some a)
    (hok : a.result = .ok rs) (hov : a.overflow = false)
    (hn : ∀ stx ∈ block.transactions, Native stx) :
    wealth a.state + ((Exec.executed P W cfg ord block 0 block.transactions
        (s.toLoop cache)).map fee).sum = wealth s ↔
      ∀ stx ∈ Exec.executed P W cfg ord block 0 block.transactions (s.toLoop cache),
        ¬ (SelfTransfer stx ∧ 0 < stx.transaction.value) := by
  obtain ⟨-, -, l, hl, rfl⟩ := applyBlock_ok h hok
  have hkeyed : Keyed l.accounts := by
    refine (Exec.executeTxs_effect hl).keyed ?_
    rw [Loop.accounts_toLoop]
    exact (Reachable.inv P hr).keyed
  have hafter : wealth (committed P (ord block.transactions.length) s block l) = l.wealth := by
    unfold wealth Loop.wealth committed
    rw [accounts_commitBlock hkeyed]
  have hbefore : (s.toLoop cache : Loop W.Module Database).wealth = wealth s := by
    unfold wealth Loop.wealth
    rw [Loop.accounts_toLoop]
    rfl
  have hrun := Exec.wealth_executeTxs hl hn hov
  rw [hafter, ← sum_lost_eq_zero_iff]
  rw [hbefore] at hrun
  constructor
  · intro hc
    omega
  · intro hc
    omega

def Small.transferBlock (b : UInt8) : Block :=
  Small.next Small.genesisBlock
    [Small.tx 2 0 .transfer (some ((KeyPair.small b).address .small)) 7 []]

def Small.executedFirst (block : Block) : List SignedTransaction :=
  Exec.executed .small .small .default (fun _ => .listed) block 0 block.transactions
    (Small.start.toLoop ∅)

theorem transfer_conserves : ∃ a rs, Small.apply Small.start (Small.transferBlock 3) = some a ∧
    a.result = .ok rs ∧ (Small.executedFirst (Small.transferBlock 3)).length = 1 ∧
    wealth a.state + ((Small.executedFirst (Small.transferBlock 3)).map fee).sum =
      wealth Small.start := by
  obtain ⟨a, rs, ha, hok, hov⟩ := Small.apply_ok Small.start (Small.transferBlock 3)
    (p := fun a => a.overflow = false) (by decide +kernel)
  have hnative : ∀ stx ∈ (Small.transferBlock 3).transactions, Native stx :=
    fun stx hs => .inl (List.mem_singleton.mp hs ▸ rfl)
  have hself : ∀ stx ∈ Small.executedFirst (Small.transferBlock 3),
      ¬ (SelfTransfer stx ∧ 0 < stx.transaction.value) := by decide +kernel
  exact ⟨a, rs, ha, hok, by decide +kernel,
    (block_conserves_iff .small .small .default Small.reachable_start ha hok hov hnative).mpr hself⟩

/-- A transfer of 7 to the sender itself succeeds, and the 7 are gone. -/
theorem self_transfer_loses_value : Reachable .small .small .default Small.genesis Small.start ∧
    ∃ a rs, Small.apply Small.start (Small.transferBlock 2) = some a ∧ a.result = .ok rs ∧
      a.overflow = false ∧ (∀ stx ∈ (Small.transferBlock 2).transactions, Native stx) ∧
      wealth a.state + ((Small.executedFirst (Small.transferBlock 2)).map fee).sum + 7 =
        wealth Small.start := by
  obtain ⟨a, rs, ha, hok, hov, hw⟩ := Small.apply_ok Small.start (Small.transferBlock 2)
    (p := fun a => a.overflow = false ∧
      wealth a.state + ((Small.executedFirst (Small.transferBlock 2)).map fee).sum + 7 =
        wealth Small.start) (by decide +kernel)
  exact ⟨Small.reachable_start, a, rs, ha, hok, hov,
    fun stx hs => .inl (List.mem_singleton.mp hs ▸ rfl), hw⟩

end Rustchain.Consensus
