import Mathlib.Algebra.BigOperators.Ring.Finset
import Rustchain.Consensus.Node
import Rustchain.Vm.Deltas

/-! # Balances after a contract transaction

The deltas of a contract execution are added to the accounts of the overlay, a sum below zero
becoming zero, and then the sender's copy is written over them. The value of a deployment is taken
from the sender and put into the new account, which replaces the one at that address; the value of a
call does not move at all. -/

namespace Rustchain.Consensus

open Rustchain.Core Storage Vm Lib.Machine Lib.Maps Lib.Partial

/-- The balance of an address as the loop sees it. -/
def Loop.balance {M : Type} (l : Loop M Database) (a : Address) : ℕ :=
  (accountOf l.accounts a).balance

namespace Exec

/-! ### The flush -/

section
variable {M : Type}

theorem applyBalanceChange_spec {a : Address} {d : ℤ} {u : Unit} {l l' : Loop M Database}
    (h : applyBalanceChange a d l = some (u, l')) : ∃ b ov,
      l' = { l.put a { accountOf l.accounts a with balance := b } with overflow := ov } ∧
      (ov = false → l.overflow = false ∧ b = (max (l.balance a + d) 0).toNat) := by
  unfold applyBalanceChange at h
  rw [bind_of_eq (getOrCreate_apply _ _), bind_of_eq (arith_apply _ _),
    bind_of_eq (arith_apply _ _), insertAccount_apply] at h
  obtain ⟨-, rfl⟩ := some_pair_inj h
  refine ⟨_, _, rfl, fun hov => ?_⟩
  obtain ⟨hov, hadd⟩ := Bool.or_eq_false_iff.mp hov
  obtain ⟨hov, hcast⟩ := Bool.or_eq_false_iff.mp hov
  have hbase : (toSigned 128 (accountOf l.accounts a).balance).val = _ := fitI_val hcast
  rw [hbase] at hadd ⊢
  have hsum : (addI 128 ((accountOf l.accounts a).balance : ℤ) d).val = _ := fitI_val hadd
  rw [hsum]
  exact ⟨hov, rfl⟩

theorem balance_forM_applyBalanceChange : ∀ {es : List (Sigma fun _ : Address => ℤ)},
    es.NodupKeys → ∀ {u : Unit} {l l' : Loop M Database},
    es.forM (fun e => applyBalanceChange e.1 e.2) l = some (u, l') → l'.overflow = false →
    l.overflow = false ∧
      ∀ a, l'.balance a = (max (l.balance a + (es.dlookup a).getD 0) 0).toNat
  | [], _, u, l, l', h, hov => by
    obtain ⟨-, rfl⟩ := pure_eq_some h
    exact ⟨hov, fun a => by simp⟩
  | e :: es, hn, u, l, l', h, hov => by
    obtain ⟨he, hes⟩ := List.nodupKeys_cons.mp hn
    obtain ⟨_, l1, h1, h2⟩ := bind_eq_some.mp h
    obtain ⟨hov1, ih⟩ := balance_forM_applyBalanceChange hes h2 hov
    obtain ⟨b, ov, rfl, hb⟩ := applyBalanceChange_spec h1
    obtain ⟨hov0, rfl⟩ := hb hov1
    refine ⟨hov0, fun a => ?_⟩
    have hput : ∀ x c ov', ({ l.put e.1 x with overflow := ov' } : Loop M Database).balance c =
        if c = e.1 then x.balance else l.balance c := by
      intro x c ov'
      show (accountOf (l.put e.1 x).accounts c).balance = _
      rw [Loop.accounts_put, accountOf_insert]
      split_ifs <;> rfl
    rw [ih a, hput]
    by_cases ha : a = e.1
    · subst ha
      rw [if_pos rfl, List.dlookup_eq_none.mpr he, List.dlookup_cons_eq]
      simp
    · rw [if_neg ha, List.dlookup_cons_ne _ _ ha]

theorem accounts_applyStorageChanges
    (order : IterOrder (Sigma fun _ : Address × Bytes => Option Bytes))
    (m : HashMap (Address × Bytes) (Option Bytes)) :
    Keeps (fun l l' => l'.accounts = l.accounts ∧ l'.overflow = l.overflow)
      (applyStorageChanges order m : ExecM M Database Unit) := by
  refine Keeps.forM (fun _ => ⟨rfl, rfl⟩)
    (fun _ _ _ h1 h2 => ⟨h2.1.trans h1.1, h2.2.trans h1.2⟩) fun e _ => ?_
  intro l u l' h
  unfold applyStorageChange at h
  cases hv : e.2 with
  | some v =>
    rw [hv] at h
    obtain ⟨-, rfl⟩ := some_pair_inj h
    exact ⟨rfl, rfl⟩
  | none =>
    rw [hv] at h
    obtain ⟨-, rfl⟩ := some_pair_inj h
    exact ⟨rfl, rfl⟩

theorem balance_flush {ord : HashOrders} {c : ExecutionContext} {u : Unit} {l l' : Loop M Database}
    (h : flush ord c l = some (u, l')) (hov : l'.overflow = false) :
    l.overflow = false ∧ ∀ a, l'.balance a = (max (l.balance a + c.delta a) 0).toNat := by
  obtain ⟨_, l1, h1, h2⟩ := bind_eq_some.mp h
  obtain ⟨hacc, hov1⟩ := accounts_applyStorageChanges _ _ _ _ _ h1
  have hp := ord.balances.perm c.balanceChanges.entries
  have hn : (ord.balances.visit c.balanceChanges.entries).NodupKeys :=
    (List.perm_nodupKeys hp).mpr c.balanceChanges.nodupKeys
  obtain ⟨hov2, hbal⟩ := balance_forM_applyBalanceChange hn h2 hov
  refine ⟨hov1 ▸ hov2, fun a => ?_⟩
  have hbase : l1.balance a = l.balance a := by unfold Loop.balance; rw [hacc]
  rw [hbal a, hbase, List.perm_dlookup a hn hp]
  rfl

end

/-! ### The execution behind a transaction -/

/-- A contract execution that succeeded: the contract it ran, the gas it used and the context it
left. -/
structure ContractRun where
  address : Address
  gasUsed : ℕ
  context : ExecutionContext

section
variable (P : Primitives) (W : Wasmtime) (cfg : VmConfig)

/-- The execution of a contract transaction, if it succeeds. -/
def contractRun (block : Block) (stx : SignedTransaction) (l : Loop W.Module Database) :
    Option ContractRun :=
  match stx.transaction.txType with
  | .contractDeploy =>
    match deployContract P W cfg stx.transaction.data [] (vmStart W block stx Address.zero l) with
    | some (.ok r, s) => some ⟨r.contractAddress, r.gasUsed, s.context⟩
    | _ => none
  | .contractCall =>
    let target := stx.transaction.toAddr.getD Address.zero
    match (l.accounts.lookup target).bind (·.codeHash) with
    | some codeHash =>
      match callContract P W cfg codeHash (extractFunctionName stx.transaction.data).1
          (extractFunctionName stx.transaction.data).2 (vmStart W block stx target l) with
      | some (.ok r, s) => if r.status = .success then some ⟨target, r.gasUsed, s.context⟩ else none
      | _ => none
    | none => none
  | _ => none

variable {P W cfg} {block : Block} {stx : SignedTransaction} {l : Loop W.Module Database}

variable {s : VmState W.Module Database}

theorem contractRun_deploy {r : DeployResult} (hc : stx.transaction.txType = .contractDeploy)
    (hvm : deployContract P W cfg stx.transaction.data [] (vmStart W block stx Address.zero l) =
      some (.ok r, s)) :
    contractRun P W cfg block stx l = some ⟨r.contractAddress, r.gasUsed, s.context⟩ := by
  simp [contractRun, hc, hvm]

theorem contractRun_refused {e : VmError} (ht : stx.transaction.txType = .contractDeploy)
    (hvm : deployContract P W cfg stx.transaction.data [] (vmStart W block stx Address.zero l) =
      some (.error e, s)) :
    contractRun P W cfg block stx l = none := by
  simp only [contractRun, ht, hvm]

theorem contractRun_noCode (ht : stx.transaction.txType = .contractCall)
    (hcode : (l.accounts.lookup (stx.transaction.toAddr.getD Address.zero)).bind (·.codeHash) =
      none) : contractRun P W cfg block stx l = none := by
  simp only [contractRun, ht, hcode]

section
variable {codeHash : Blake3Hash} {r : CallResult} (ht : stx.transaction.txType = .contractCall)
  (hcode : (l.accounts.lookup (stx.transaction.toAddr.getD Address.zero)).bind (·.codeHash) =
    some codeHash)
include ht hcode

theorem contractRun_call_refused {e : VmError}
    (hvm : callContract P W cfg codeHash (extractFunctionName stx.transaction.data).1
      (extractFunctionName stx.transaction.data).2
      (vmStart W block stx (stx.transaction.toAddr.getD Address.zero) l) = some (.error e, s)) :
    contractRun P W cfg block stx l = none := by
  simp only [contractRun, ht, hcode, hvm]

variable (hvm : callContract P W cfg codeHash (extractFunctionName stx.transaction.data).1
  (extractFunctionName stx.transaction.data).2
  (vmStart W block stx (stx.transaction.toAddr.getD Address.zero) l) = some (.ok r, s))
include hvm

theorem contractRun_call (hst : r.status = .success) : contractRun P W cfg block stx l =
    some ⟨stx.transaction.toAddr.getD Address.zero, r.gasUsed, s.context⟩ := by
  simp [contractRun, ht, hcode, hvm, hst]

theorem contractRun_failed (hst : r.status ≠ .success) :
    contractRun P W cfg block stx l = none := by
  simp only [contractRun, ht, hcode, hvm, if_neg hst]

end

theorem contractRun_eq_none (hd : stx.transaction.txType ≠ .contractDeploy)
    (hc : stx.transaction.txType ≠ .contractCall) : contractRun P W cfg block stx l = none := by
  unfold contractRun
  cases ht : stx.transaction.txType with
  | contractDeploy => exact absurd ht hd
  | contractCall => exact absurd ht hc
  | transfer => rfl
  | stake => rfl
  | unstake => rfl

end

/-- A transaction that runs a contract. -/
def RunsContract (stx : SignedTransaction) : Prop :=
  stx.transaction.txType = .contractDeploy ∨ stx.transaction.txType = .contractCall

/-- The balance to which the delta of an address is added: a deployment has replaced the account at
the address of the contract by one that holds the value. -/
def base {M : Type} (l : Loop M Database) (stx : SignedTransaction) (run : ContractRun)
    (a : Address) : ℕ :=
  if stx.transaction.txType = .contractDeploy ∧ a = run.address then stx.transaction.value
  else l.balance a

/-- The value that leaves the sender. -/
def paid (stx : SignedTransaction) : ℕ :=
  if stx.transaction.txType = .contractDeploy then stx.transaction.value else 0

/-- The gas that is charged. -/
def charged (stx : SignedTransaction) (run : ContractRun) : ℕ :=
  min stx.transaction.gasLimit run.gasUsed * stx.transaction.gasPrice

/-- What the code does to balances: the sender pays, and every other balance gets its delta. -/
structure Settled {M : Type} (stx : SignedTransaction) (run : ContractRun)
    (l l' : Loop M Database) :
    Prop where
  balanced : run.context.deltaSum = 0
  sender : l'.balance stx.sender + paid stx + charged stx run = l.balance stx.sender
  others : ∀ a, a ≠ stx.sender →
    l'.balance a = (max (base l stx run a + run.context.delta a) 0).toNat

section
variable (P : Primitives) (W : Wasmtime) (cfg : VmConfig) (ord : HashOrders)

variable {l l' : Loop W.Module Database}

theorem executeDeploy_settled {block : Block} {tx : Transaction} {sender : Address} {x x' : Account}
    {o : Outcome} (h : executeDeploy P W cfg ord block tx sender x l = some ((x', o), l'))
    (hs : o.status = .success) (hov : l'.overflow = false) :
    ∃ r s, deployContract P W cfg tx.data []
        ⟨contextFor block tx sender Address.zero, l.storage, l.moduleCache, l.overflow⟩ =
          some (.ok r, s) ∧
      s.context.deltaSum = 0 ∧ tx.value ≤ x.balance ∧
      x'.balance = x.balance - tx.value + (tx.gasLimit - r.gasUsed) * tx.gasPrice ∧
      ∀ a, l'.balance a = (max ((if a = r.contractAddress then tx.value else l.balance a : ℕ) +
        s.context.delta a) 0).toNat := by
  cases deployRun_of_eq_some P W cfg ord h with
  | refused => cases hs
  | @done r s l1 _ _ hvm hflush hrefund =>
    obtain ⟨b, ov, rfl, rfl, hb⟩ := refundGas_spec hrefund
    obtain ⟨hov1, rfl⟩ := hb hov
    obtain ⟨hov1, hd⟩ := Bool.or_eq_false_iff.mp hov1
    obtain ⟨hdb, hle⟩ := Account.debit_balance hd
    obtain ⟨hovs, hbal⟩ := balance_flush hflush hov1
    obtain ⟨-, hsum⟩ := engineRelation_balanced.deployContract _ _ _ _ _ hvm hovs
    refine ⟨r, s, hvm, hsum rfl, hle, by rw [hdb], fun a => ?_⟩
    show l1.balance a = _
    rw [hbal a]
    unfold Loop.balance
    rw [accounts_withContract, accountOf_insert]
    split_ifs <;> rfl

theorem executeCall_settled {block : Block} {tx : Transaction} {sender : Address} {x x' : Account}
    {o : Outcome} (h : executeCall P W cfg ord block tx sender x l = some ((x', o), l'))
    (hs : o.status = .success) (hov : l'.overflow = false) :
    ∃ codeHash r s,
      (l.accounts.lookup (tx.toAddr.getD Address.zero)).bind (·.codeHash) = some codeHash ∧
      callContract P W cfg codeHash (extractFunctionName tx.data).1 (extractFunctionName tx.data).2
        ⟨contextFor block tx sender (tx.toAddr.getD Address.zero), l.storage, l.moduleCache,
          l.overflow⟩ = some (.ok r, s) ∧
      r.status = .success ∧ s.context.deltaSum = 0 ∧
      x'.balance = x.balance + (tx.gasLimit - r.gasUsed) * tx.gasPrice ∧
      ∀ a, l'.balance a = (max (l.balance a + s.context.delta a) 0).toNat := by
  cases callRun_of_eq_some P W cfg ord h with
  | noCode => cases hs
  | refused => cases hs
  | failed _ _ hst => exact absurd hs hst
  | done hcode hvm hst hflush hrefund =>
    obtain ⟨b, ov, rfl, rfl, hb⟩ := refundGas_spec hrefund
    obtain ⟨hov1, rfl⟩ := hb hov
    obtain ⟨hovs, hbal⟩ := balance_flush hflush hov1
    obtain ⟨-, hsum⟩ := engineRelation_balanced.callContract _ _ _ _ _ _ hvm hovs
    exact ⟨_, _, _, hcode, hvm, hst, hsum rfl, rfl, hbal⟩

theorem balance_finished_self {M : Type} (l : Loop M Database) (a : Address) (x : Account)
    (gas : ℕ) (r : TransactionReceipt) : (finished l a x gas r).balance a = x.balance := by
  unfold Loop.balance
  rw [accounts_finished, accountOf_insert_self]

theorem balance_finished_ne {M : Type} (l : Loop M Database) (x : Account) (gas : ℕ)
    (r : TransactionReceipt) {a b : Address} (h : b ≠ a) :
    (finished l a x gas r).balance b = l.balance b := by
  unfold Loop.balance
  rw [accounts_finished, accountOf_insert_ne _ _ h]

theorem settled_of_success {block : Block} {i : ℕ} {stx : SignedTransaction}
    {receipt : TransactionReceipt} (hc : RunsContract stx) (hp : Passes l stx)
    (h : executeTx P W cfg ord block i stx l = some ((), l'))
    (hr : l'.receipts = l.receipts ++ [receipt]) (hs : receipt.status = .success)
    (hov : l'.overflow = false) :
    ∃ run, contractRun P W cfg block stx l = some run ∧ Settled stx run l l' := by
  obtain ⟨x, o, l1, ht, rfl⟩ := executeTx_run P W cfg ord hp h
  obtain ⟨hbranch, -⟩ := executeType_branch P W cfg ord ht
  have hov1 : l1.overflow = false := (Bool.or_eq_false_iff.mp hov).1
  obtain ⟨hpre, hprele⟩ := prepay_balance (Bool.or_eq_false_iff.mp (hbranch.overflow hov1)).2
  have hos : o.status = .success := by
    have hrec : l1.receipts ++ [receiptOf P block i stx o] = l.receipts ++ [receipt] := hr
    rw [show l1.receipts = l.receipts from hbranch.receipts] at hrec
    obtain rfl := List.singleton_inj.mp (List.append_cancel_left hrec)
    exact hs
  unfold executeType at ht
  rcases hc with hc | hc
  · rw [hc] at ht
    obtain ⟨r, s, hvm, hsum, hle, hx, hbal⟩ := executeDeploy_settled P W cfg ord ht hos hov1
    refine ⟨_, contractRun_deploy hc hvm, hsum, ?_, fun a ha => ?_⟩
    · have hbought := charged_add_refund stx.transaction r.gasUsed
      rw [hpre] at hle
      rw [balance_finished_self, hx, hpre, paid, if_pos hc, charged]
      unfold Loop.balance
      dsimp only
      omega
    · rw [balance_finished_ne _ _ _ _ ha, hbal a, base]
      simp only [hc, true_and]
      rfl
  · rw [hc] at ht
    obtain ⟨codeHash, r, s, hl, hvm, hst, hsum, hx, hbal⟩ :=
      executeCall_settled P W cfg ord ht hos hov1
    have hnd : stx.transaction.txType ≠ .contractDeploy := by rw [hc]; decide
    refine ⟨_, contractRun_call hc hl hvm hst, hsum, ?_, fun a ha => ?_⟩
    · have hbought := charged_add_refund stx.transaction r.gasUsed
      rw [balance_finished_self, hx, hpre, paid, if_neg hnd, charged]
      unfold Loop.balance
      dsimp only
      omega
    · rw [balance_finished_ne _ _ _ _ ha, hbal a, base, if_neg fun hd => hnd hd.1]
      rfl

end

/-! ### Exact effects -/

/-- **Exact effects**: every balance moves by its delta, the sender pays the value and the gas, the
contract gets the value, nothing is clamped, and the sum of the balances falls by the gas. -/
structure ExactEffects {M : Type} (stx : SignedTransaction) (run : ContractRun)
    (l l' : Loop M Database) : Prop where
  noClamp : ∀ a, 0 ≤ (base l stx run a : ℤ) + run.context.delta a
  exact : ∀ a, (l'.balance a : ℤ) = l.balance a + run.context.delta a -
    (if a = stx.sender then (stx.transaction.value : ℤ) + charged stx run else 0) +
    (if a = run.address then (stx.transaction.value : ℤ) else 0)
  conserved : total (·.balance) l'.accounts + charged stx run = total (·.balance) l.accounts

/-- When the effects are exact: every delta is covered by the balance it is added to, and the writes
that come after the deltas have nothing to overwrite. -/
def EffectsFit {M : Type} (stx : SignedTransaction) (run : ContractRun) (l : Loop M Database) :
    Prop :=
  (∀ a, 0 ≤ (base l stx run a : ℤ) + run.context.delta a) ∧
  if stx.transaction.txType = .contractDeploy then
    if run.address = stx.sender then run.context.delta stx.sender = -(stx.transaction.value : ℤ)
    else l.balance run.address = 0 ∧ run.context.delta stx.sender = 0
  else (run.address = stx.sender ∨ stx.transaction.value = 0) ∧ run.context.delta stx.sender = 0

section
variable {M : Type} {stx : SignedTransaction} {run : ContractRun} {l l' : Loop M Database}

theorem total_eq_sum_balance (l : Loop M Database) (S : Finset Address)
    (h : ∀ a ∈ l.accounts, a ∈ S) :
    ((total (·.balance) l.accounts : ℕ) : ℤ) = ∑ a ∈ S, (l.balance a : ℤ) := by
  rw [total_eq_sum _ S _ h, Nat.cast_sum]
  refine Finset.sum_congr rfl fun a _ => ?_
  rw [weightAt_balance]
  rfl

theorem conserved_of_exact (hsum : run.context.deltaSum = 0)
    (h : ∀ a, (l'.balance a : ℤ) = l.balance a + run.context.delta a -
      (if a = stx.sender then (stx.transaction.value : ℤ) + charged stx run else 0) +
      (if a = run.address then (stx.transaction.value : ℤ) else 0)) :
    total (·.balance) l'.accounts + charged stx run = total (·.balance) l.accounts := by
  set S : Finset Address := l'.accounts.keys ∪ l.accounts.keys ∪
    run.context.balanceChanges.toFinmap.keys ∪ {stx.sender, run.address} with hS
  have hafter := total_eq_sum_balance l' S fun a ha => by
    have := Finmap.mem_keys.mpr ha
    simp [hS, this]
  have hbefore := total_eq_sum_balance l S fun a ha => by
    have := Finmap.mem_keys.mpr ha
    simp [hS, this]
  have hdelta : (0 : ℤ) = ∑ a ∈ S, run.context.delta a := by
    rw [← hsum]
    refine (total_eq_sum id S _ fun a ha => ?_).trans
      (Finset.sum_congr rfl fun a _ => run.context.weightAt_delta a)
    have := Finmap.mem_keys.mpr ha
    simp [hS, this]
  have hsender : stx.sender ∈ S := by simp [hS]
  have haddress : run.address ∈ S := by simp [hS]
  rw [Finset.sum_congr rfl fun a _ => h a, Finset.sum_add_distrib, Finset.sum_sub_distrib,
    Finset.sum_add_distrib, ← hdelta, Finset.sum_ite_eq', Finset.sum_ite_eq', if_pos hsender,
    if_pos haddress, ← hbefore] at hafter
  omega

theorem Settled.other_eq (h : Settled stx run l l') {a : Address} (ha : a ≠ stx.sender)
    (hpos : 0 ≤ (base l stx run a : ℤ) + run.context.delta a) :
    (l'.balance a : ℤ) = base l stx run a + run.context.delta a := by
  rw [h.others a ha]
  omega

theorem Settled.effectsFit (h : Settled stx run l l') (he : ExactEffects stx run l l') :
    EffectsFit stx run l := by
  have hsender := h.sender
  have hs := he.exact stx.sender
  have hc := he.exact run.address
  rw [if_pos rfl] at hs hc
  refine ⟨he.noClamp, ?_⟩
  unfold paid at hsender
  split_ifs at hsender ⊢ with hd heq
  · rw [heq, if_pos rfl] at hs
    omega
  · rw [if_neg (Ne.symm heq)] at hs
    rw [if_neg heq, h.other_eq heq (he.noClamp _), base, if_pos ⟨hd, rfl⟩] at hc
    omega
  · by_cases heq : run.address = stx.sender
    · rw [if_pos heq.symm] at hs
      exact ⟨.inl heq, by omega⟩
    · rw [if_neg (Ne.symm heq)] at hs
      rw [if_neg heq, h.other_eq heq (he.noClamp _), base, if_neg fun h => hd h.1] at hc
      omega

theorem Settled.exact_sender (h : Settled stx run l l') (hfit : EffectsFit stx run l) :
    (l'.balance stx.sender : ℤ) = l.balance stx.sender + run.context.delta stx.sender -
      ((stx.transaction.value : ℤ) + charged stx run) +
      (if stx.sender = run.address then (stx.transaction.value : ℤ) else 0) := by
  have hsender := h.sender
  have hrest := hfit.2
  unfold paid at hsender
  by_cases hd : stx.transaction.txType = .contractDeploy
  · rw [if_pos hd] at hsender hrest
    split_ifs at hrest ⊢ with h1 h2 h2
    · omega
    · exact absurd h1.symm h2
    · exact absurd h2.symm h1
    · omega
  · rw [if_neg hd] at hsender hrest
    split_ifs with h1
    · omega
    · rcases hrest.1 with heq | hv
      · exact absurd heq.symm h1
      · omega

theorem Settled.exact_other (h : Settled stx run l l') (hfit : EffectsFit stx run l) {a : Address}
    (ha : a ≠ stx.sender) : (l'.balance a : ℤ) = l.balance a + run.context.delta a +
      (if a = run.address then (stx.transaction.value : ℤ) else 0) := by
  have hrest := hfit.2
  rw [h.other_eq ha (hfit.1 a), base]
  by_cases hd : stx.transaction.txType = .contractDeploy
  · rw [if_pos hd] at hrest
    by_cases hc : a = run.address
    · rw [if_pos ⟨hd, hc⟩, if_pos hc]
      rw [if_neg (hc ▸ ha), ← hc] at hrest
      omega
    · rw [if_neg fun h => hc h.2, if_neg hc]
      omega
  · rw [if_neg hd] at hrest
    rw [if_neg fun h => hd h.1]
    split_ifs with hc
    · rcases hrest.1 with heq | hv
      · exact absurd (hc.trans heq) ha
      · omega
    · omega

theorem Settled.exact_iff (h : Settled stx run l l') :
    ExactEffects stx run l l' ↔ EffectsFit stx run l := by
  refine ⟨h.effectsFit, fun hfit => ?_⟩
  have hexact : ∀ a, (l'.balance a : ℤ) = l.balance a + run.context.delta a -
      (if a = stx.sender then (stx.transaction.value : ℤ) + charged stx run else 0) +
      (if a = run.address then (stx.transaction.value : ℤ) else 0) := by
    intro a
    by_cases ha : a = stx.sender
    · rw [ha, if_pos rfl]
      exact h.exact_sender hfit
    · rw [if_neg ha, sub_zero]
      exact h.exact_other hfit ha
  exact ⟨hfit.1, hexact, conserved_of_exact h.balanced hexact⟩

end

end Exec

theorem delta_of_nil {c : ExecutionContext} (h : c.balanceChanges.entries = []) (a : Address) :
    c.delta a = 0 := by
  unfold ExecutionContext.delta AList.lookup
  rw [h]
  rfl

/-! ### A deployment and a call on the small chain -/

namespace Small

def runOne (s : ChainState Database) (stx : SignedTransaction) :
    Option (Unit × Loop Small.Module Database) :=
  Exec.executeTx .small .small .default .listed (next s.head [stx]) 0 stx (s.toLoop ∅)

def runContract (s : ChainState Database) (stx : SignedTransaction) : Option Exec.ContractRun :=
  Exec.contractRun .small .small .default (next s.head [stx]) stx (s.toLoop ∅)

def succeeds (p : Exec.ContractRun → Loop Small.Module Database → Bool) (s : ChainState Database)
    (stx : SignedTransaction) : Bool :=
  match runOne s stx, runContract s stx with
  | some (_, l'), some run =>
    decide (Exec.Passes (s.toLoop (∅ : HashMap Blake3Hash Small.Module)) stx ∧
      l'.receipts.map (·.status) = [.success] ∧ l'.overflow = false ∧
      run.context.balanceChanges.entries = []) && p run l'
  | _, _ => false

theorem exists_of_succeeds {p : Exec.ContractRun → Loop Small.Module Database → Bool}
    (s : ChainState Database) (stx : SignedTransaction) (h : succeeds p s stx = true) :
    ∃ l' run receipt, runOne s stx = some ((), l') ∧ runContract s stx = some run ∧
      Exec.Passes (s.toLoop (∅ : HashMap Blake3Hash Small.Module)) stx ∧
      l'.receipts = [receipt] ∧ receipt.status = .success ∧ l'.overflow = false ∧
      run.context.balanceChanges.entries = [] ∧ p run l' = true := by
  unfold succeeds at h
  split at h
  · rename_i l' run h1 h2
    obtain ⟨hd, hp⟩ := Bool.and_eq_true_iff.mp h
    obtain ⟨hpass, hrec, hov, hb⟩ := of_decide_eq_true hd
    obtain ⟨r, hr, hst⟩ := List.map_eq_singleton_iff.mp hrec
    exact ⟨l', run, r, h1, h2, hpass, hr, hst, hov, hb, hp⟩
  · cases h

def deployTx : SignedTransaction := tx 2 0 .contractDeploy none 5 Vm.Small.zeroCode

def callTx : SignedTransaction :=
  tx 2 1 .contractCall (some (deployAddress .small ((KeyPair.small 2).address .small) 1)) 5 []

end Small

end Rustchain.Consensus
