import Rustchain.Consensus.State
import Rustchain.Vm.Relations

/-! # The ledger that a block works on

On a database without faults, the transaction loop sees one table of accounts: the overlay on top of
the database (`Loop.accounts`). Here is what each step of the loop does to that table, and that the
commit makes it the content of the database. -/

namespace Rustchain.Consensus

open Rustchain.Core Storage Vm Lib.Machine Lib.Maps Lib.Partial

/-- The account of an address in a table, a new one if there is none. -/
def accountOf (t : Table Address Account) (a : Address) : Account :=
  (t.lookup a).getD (Account.new a 0)

variable (X : Address → Prop) (t : Table Address Account) (a : Address)

theorem accountOf_insert (a b : Address) (x : Account) :
    accountOf (t.insert a x) b = if b = a then x else accountOf t b := by
  unfold accountOf
  split_ifs with h
  · subst h; rw [Finmap.lookup_insert]; rfl
  · rw [Finmap.lookup_insert_of_ne _ h]

theorem accountOf_insert_self (x : Account) :
    accountOf (t.insert a x) a = x := by rw [accountOf_insert, if_pos rfl]

theorem accountOf_insert_ne {a b : Address} (x : Account) (h : b ≠ a) :
    accountOf (t.insert a x) b = accountOf t b := by rw [accountOf_insert, if_neg h]

theorem weightAt_balance : weightAt (·.balance) t a = (accountOf t a).balance := by
  unfold weightAt accountOf
  cases t.lookup a <;> rfl

theorem total_balance_insert (x : Account) :
    total (·.balance) (t.insert a x) + (accountOf t a).balance =
      total (·.balance) t + x.balance := by
  rw [← weightAt_balance]
  exact total_insert _ t a x

/-! ### Columns of the chain -/

/-- The two databases differ at most in contract code, contract storage and validators. -/
def SameChain (d d' : Database) : Prop :=
  d' = { d with
    contracts := d'.contracts, contractStorage := d'.contractStorage, validators := d'.validators }

theorem SameChain.refl (d : Database) : SameChain d d := rfl

theorem SameChain.trans {d d' d'' : Database} (h1 : SameChain d d') (h2 : SameChain d' d'') :
    SameChain d d'' := by
  unfold SameChain at *
  rw [h1] at h2
  exact h2

theorem SameChain.accounts {d d' : Database} (h : SameChain d d') : d'.accounts = d.accounts := by
  rw [h]

/-! ### Validator sets -/

/-- The sum of all stakes of a validator set. -/
def stakeTotal (vs : ValidatorSet) : ℕ := (vs.validators.map (·.stake)).sum

/-- No validator of the set is jailed. -/
def JailFree (vs : ValidatorSet) : Prop := ∀ v ∈ vs.validators, v.jailedUntil = none

theorem sum_stake_modifyFirst {p : ValidatorInfo → Bool} {vi : ValidatorInfo}
    (vi' : ValidatorInfo) : ∀ {l : List ValidatorInfo}, l.find? p = some vi →
      ((modifyFirst p (fun _ => vi') l).map (·.stake)).sum + vi.stake =
        (l.map (·.stake)).sum + vi'.stake
  | [], h => by simp at h
  | v :: l, h => by
    unfold modifyFirst
    by_cases hv : p v
    · obtain rfl : v = vi := by simpa [hv] using h
      simp only [hv, if_true, List.map_cons, List.sum_cons]
      omega
    · have hl : l.find? p = some vi := by simpa [hv] using h
      have ih := sum_stake_modifyFirst vi' hl
      simp only [hv, if_false, List.map_cons, List.sum_cons, Bool.false_eq_true]
      omega

theorem mem_modifyFirst {α : Type} {p : α → Bool} {f : α → α} {b : α} :
    ∀ {l : List α}, b ∈ modifyFirst p f l → b ∈ l ∨ ∃ a ∈ l, b = f a
  | [], h => by simp [modifyFirst] at h
  | a :: l, h => by
    unfold modifyFirst at h
    split_ifs at h
    · rcases List.mem_cons.mp h with rfl | h
      · exact .inr ⟨a, by simp, rfl⟩
      · exact .inl (by simp [h])
    · rcases List.mem_cons.mp h with rfl | h
      · exact .inl (by simp)
      · rcases mem_modifyFirst h with h | ⟨c, hc, rfl⟩
        · exact .inl (by simp [h])
        · exact .inr ⟨c, by simp [hc], rfl⟩

theorem stakeTotal_modifyValidator {vs : ValidatorSet} {a : Address} {vi : ValidatorInfo}
    (h : vs.getValidator a = some vi) (vi' : ValidatorInfo) :
    stakeTotal (vs.modifyValidator a fun _ => vi') + vi.stake = stakeTotal vs + vi'.stake :=
  sum_stake_modifyFirst vi' h

theorem JailFree.modifyValidator {vs : ValidatorSet} (h : JailFree vs) {a : Address}
    {vi' : ValidatorInfo} (hvi : vi'.jailedUntil = none) :
    JailFree (vs.modifyValidator a fun _ => vi') := by
  intro v hv
  rcases mem_modifyFirst hv with hv | ⟨_, _, rfl⟩
  · exact h v hv
  · exact hvi

theorem JailFree.getValidator {vs : ValidatorSet} (h : JailFree vs) {a : Address}
    {vi : ValidatorInfo} (hvi : vs.getValidator a = some vi) : vi.jailedUntil = none :=
  h vi (List.mem_of_find?_eq_some hvi)

/-! ### Stake and unstake as functions of the set -/

/-- The set after a stake: the first record of the sender gets the value and is active, or the
sender gets a record. -/
def stakeSet (vs : ValidatorSet) (stx : SignedTransaction) : Flagged ValidatorSet :=
  match vs.getValidator stx.sender with
  | some vi => do
    let stake ← addU 128 vi.stake stx.transaction.value
    (vs.modifyValidator stx.sender fun _ =>
      { vi with stake, isActive := true }).recalculateTotalStake
  | none =>
    { vs with validators := vs.validators ++
        [ValidatorInfo.new stx.sender stx.publicKey stx.transaction.value] }.recalculateTotalStake

/-- The set after an unstake: the first record of the sender loses the value, if it has it, and is
not active below the minimum. -/
def unstakeSet (vs : ValidatorSet) (stx : SignedTransaction) : Flagged ValidatorSet :=
  match vs.getValidator stx.sender with
  | some vi =>
    if vi.stake < stx.transaction.value then pure vs
    else do
      let stake ← subU 128 vi.stake stx.transaction.value
      (vs.modifyValidator stx.sender fun _ =>
        { vi with stake, isActive := if stake < vs.minStake then false else vi.isActive
        }).recalculateTotalStake
  | none => pure vs

section
variable {vs : ValidatorSet} {stx : SignedTransaction}

theorem JailFree.stakeSet (h : JailFree vs) : JailFree (stakeSet vs stx).val := by
  unfold Consensus.stakeSet
  cases hv : vs.getValidator stx.sender with
  | some vi =>
    have hvi : vi.jailedUntil = none := h.getValidator hv
    exact h.modifyValidator hvi
  | none =>
    intro v hm
    rcases List.mem_append.mp hm with hm | hm
    · exact h v hm
    · obtain rfl := List.mem_singleton.mp hm
      rfl

theorem JailFree.unstakeSet (h : JailFree vs) : JailFree (unstakeSet vs stx).val := by
  unfold Consensus.unstakeSet
  cases hv : vs.getValidator stx.sender with
  | none => exact h
  | some vi =>
    have hvi : vi.jailedUntil = none := h.getValidator hv
    dsimp only
    split_ifs
    · exact h
    · exact h.modifyValidator hvi

theorem stakeTotal_stakeSet (h : (stakeSet vs stx).ovf = false) :
    stakeTotal (stakeSet vs stx).val = stakeTotal vs + stx.transaction.value := by
  unfold stakeSet at h ⊢
  cases hv : vs.getValidator stx.sender with
  | some vi =>
    simp only [hv, ovf_bind, Bool.or_eq_false_iff] at h
    have hs := stakeTotal_modifyValidator hv { vi with
      stake := (addU 128 vi.stake stx.transaction.value).val, isActive := true }
    have ha := addU_val h.1
    show stakeTotal (vs.modifyValidator _ _) = _
    dsimp only at hs
    omega
  | none =>
    show ((vs.validators ++ [_]).map ValidatorInfo.stake).sum = _
    rw [List.map_append, List.sum_append]
    rfl

theorem stakeTotal_unstakeSet {vi : ValidatorInfo} (hv : vs.getValidator stx.sender = some vi)
    (hle : stx.transaction.value ≤ vi.stake) :
    stakeTotal (unstakeSet vs stx).val + stx.transaction.value = stakeTotal vs := by
  unfold unstakeSet
  rw [hv]
  dsimp only
  rw [if_neg (by omega), subU_of_le hle]
  have hs := stakeTotal_modifyValidator hv { vi with
    stake := vi.stake - stx.transaction.value
    isActive := if vi.stake - stx.transaction.value < vs.minStake then false else vi.isActive }
  show stakeTotal (vs.modifyValidator _ _) + _ = _
  dsimp only at hs ⊢
  omega

end

/-! ### The overlay -/

section
variable {M : Type}

/-- The accounts as the loop sees them: the overlay, and below it the database. -/
def Loop.accounts (l : Loop M Database) : Table Address Account :=
  l.modifiedAccounts.toFinmap ∪ l.storage.accounts

def Loop.put (l : Loop M Database) (a : Address) (x : Account) : Loop M Database :=
  { l with modifiedAccounts := l.modifiedAccounts.insert a x }

theorem Loop.accounts_put (l : Loop M Database) (a : Address) (x : Account) :
    (l.put a x).accounts = l.accounts.insert a x := by
  unfold Loop.accounts Loop.put
  rw [Finmap.insert_union, Finmap.insert_toFinmap]

theorem Loop.accounts_toLoop (s : ChainState Database) (cache : HashMap Blake3Hash M) :
    (s.toLoop cache).accounts = s.storage.accounts := by
  show (∅ : AList _).toFinmap ∪ s.storage.accounts = s.storage.accounts
  exact Finmap.empty_union

namespace Exec

theorem lookupAccount_apply (a : Address) (l : Loop M Database) :
    lookupAccount a l = some (l.accounts.lookup a, l) := by
  unfold lookupAccount Loop.accounts
  rw [lookup_union, Finmap.lookup_toFinmap]
  cases l.modifiedAccounts.lookup a with
  | some x => rfl
  | none => rfl

theorem getOrCreate_apply (a : Address) (l : Loop M Database) :
    getOrCreate a l = some (accountOf l.accounts a, l) := by
  unfold getOrCreate
  rw [bind_of_eq (lookupAccount_apply a l)]
  rfl

theorem arith_apply {α : Type} (x : Flagged α) (l : Loop M Database) :
    arith x l = some (x.val, { l with overflow := l.overflow || x.ovf }) := rfl

theorem insertAccount_apply (a : Address) (x : Account) (l : Loop M Database) :
    insertAccount a x l = some ((), l.put a x) := rfl

theorem getValidatorSet_apply (l : Loop M Database) :
    getValidatorSet l = some (l.validatorSet, l) := rfl

theorem setValidatorSet_apply (vs : ValidatorSet) (l : Loop M Database) :
    setValidatorSet vs l = some ((), { l with validatorSet := vs }) := rfl

theorem writeIgnored_apply (op : StorageOp) (f : Database → Database) (l : Loop M Database) :
    writeIgnored op f l = some ((), { l with storage := f l.storage }) := rfl

theorem refundGas_apply (tx : Transaction) (g : ℕ) (x : Account) (l : Loop M Database) :
    refundGas tx g x l = some ((x.credit (mulU 64 (tx.gasLimit - g) tx.gasPrice).val).val,
      { l with overflow := l.overflow || (mulU 64 (tx.gasLimit - g) tx.gasPrice).ovf ||
        (x.credit (mulU 64 (tx.gasLimit - g) tx.gasPrice).val).ovf }) := rfl

/-! ### Transactions without a contract -/

variable {l l' : Loop M Database} {tx : Transaction} {x x' : Account}

theorem refundGas_spec {g : ℕ} (h : refundGas tx g x l = some (x', l')) :
    ∃ b ov, x' = { x with balance := b } ∧ l' = { l with overflow := ov } ∧
      (ov = false → l.overflow = false ∧ b = x.balance + (tx.gasLimit - g) * tx.gasPrice) := by
  rw [refundGas_apply] at h
  obtain ⟨rfl, rfl⟩ := some_pair_inj h
  refine ⟨_, _, rfl, rfl, fun hov => ?_⟩
  obtain ⟨hov, hc⟩ := Bool.or_eq_false_iff.mp hov
  obtain ⟨hl, hm⟩ := Bool.or_eq_false_iff.mp hov
  exact ⟨hl, (Account.credit_balance hc).trans (by rw [mulU_val hm])⟩

theorem refundGas_return {g : ℕ} {o o' : Outcome}
    (h : (refundGas tx g x >>= fun y => pure (y, o) : ExecM M Database _) l = some ((x', o'), l')) :
    o' = o ∧ refundGas tx g x l = some (x', l') := by
  obtain ⟨y, l2, h1, h2⟩ := bind_eq_some.mp h
  obtain ⟨h3, rfl⟩ := pure_eq_some h2
  obtain ⟨rfl, rfl⟩ := Prod.mk.inj h3
  exact ⟨rfl, h1⟩

section
variable {stx : SignedTransaction} {o : Outcome}

/-- **A transfer**: the recipient's copy is credited and enters the overlay; the sender's copy is
debited and paid the refund. -/
theorem executeTransfer_run (h : executeTransfer tx x l = some ((x', o), l')) :
    o = { status := .success, gasUsed := baseGas } ∧
      refundGas tx baseGas (x.debit tx.value).val
        { l.put (tx.toAddr.getD Address.zero)
            ((accountOf l.accounts (tx.toAddr.getD Address.zero)).credit tx.value).val with
          overflow := l.overflow || (x.debit tx.value).ovf ||
            ((accountOf l.accounts (tx.toAddr.getD Address.zero)).credit tx.value).ovf } =
        some (x', l') := by
  unfold executeTransfer at h
  rw [bind_of_eq (getOrCreate_apply _ l), bind_of_eq (arith_apply _ _),
    bind_of_eq (arith_apply _ _), bind_of_eq (insertAccount_apply _ _ _)] at h
  exact refundGas_return h

/-- **A stake**: the sender's copy is debited, the set is the one after a stake, and a record is
stored. -/
theorem executeStake_run (h : executeStake stx x l = some ((x', o), l')) :
    o = { status := .success, gasUsed := baseGas } ∧ ∃ vi,
      refundGas stx.transaction baseGas (x.debit stx.transaction.value).val
        { l with
          validatorSet := (stakeSet l.validatorSet stx).val
          storage := l.storage.putValidator vi
          overflow := l.overflow || (x.debit stx.transaction.value).ovf ||
            (stakeSet l.validatorSet stx).ovf } = some (x', l') := by
  unfold executeStake at h
  rw [bind_of_eq (arith_apply _ l), bind_of_eq (getValidatorSet_apply _)] at h
  unfold stakeSet
  cases hv : l.validatorSet.getValidator stx.sender with
  | some vi =>
    simp only [hv] at h
    rw [bind_of_eq (arith_apply _ _), bind_of_eq (setValidatorSet_apply _ _),
      bind_of_eq (writeIgnored_apply _ _ _), bind_of_eq (getValidatorSet_apply _),
      bind_of_eq (arith_apply _ _), bind_of_eq (setValidatorSet_apply _ _)] at h
    obtain ⟨rfl, hrefund⟩ := refundGas_return h
    refine ⟨rfl, { vi with
      stake := (addU 128 vi.stake stx.transaction.value).val, isActive := true }, ?_⟩
    simp only [ovf_bind, val_bind, ← Bool.or_assoc]
    exact hrefund
  | none =>
    simp only [hv] at h
    rw [bind_of_eq (writeIgnored_apply _ _ _), bind_of_eq (setValidatorSet_apply _ _),
      bind_of_eq (getValidatorSet_apply _),
      bind_of_eq (arith_apply _ _), bind_of_eq (setValidatorSet_apply _ _)] at h
    obtain ⟨rfl, hrefund⟩ := refundGas_return h
    exact ⟨rfl, _, hrefund⟩

/-- **The ways through an unstake**: the sender has no record or not the stake, and is only paid the
refund; or the set is the one after the unstake, and the sender's copy is credited the value. -/
inductive UnstakeRun (stx : SignedTransaction) (x : Account) (l : Loop M Database) :
    Account → Outcome → Loop M Database → Prop
  | refused {x' : Account} {l' : Loop M Database} {msg : String}
      (hshort : ∀ vi, l.validatorSet.getValidator stx.sender = some vi →
        vi.stake < stx.transaction.value)
      (hrefund : refundGas stx.transaction baseGas x l = some (x', l')) :
      UnstakeRun stx x l x' { status := .failure msg, gasUsed := baseGas } l'
  | done {x' : Account} {l' : Loop M Database} {vi vi' : ValidatorInfo}
      (hv : l.validatorSet.getValidator stx.sender = some vi)
      (hle : stx.transaction.value ≤ vi.stake)
      (hrefund : refundGas stx.transaction baseGas (x.credit stx.transaction.value).val
        { l with
          validatorSet := (unstakeSet l.validatorSet stx).val
          storage := l.storage.putValidator vi'
          overflow := l.overflow || (unstakeSet l.validatorSet stx).ovf ||
            (x.credit stx.transaction.value).ovf } = some (x', l')) :
      UnstakeRun stx x l x' { status := .success, gasUsed := baseGas } l'

theorem unstakeRun_of_eq_some (h : executeUnstake stx x l = some ((x', o), l')) :
    UnstakeRun stx x l x' o l' := by
  unfold executeUnstake at h
  rw [bind_of_eq (getValidatorSet_apply _)] at h
  cases hv : l.validatorSet.getValidator stx.sender with
  | none =>
    simp only [hv] at h
    obtain ⟨rfl, hrefund⟩ := refundGas_return h
    exact .refused (fun vi hvi => by cases hv.symm.trans hvi) hrefund
  | some vi =>
    simp only [hv] at h
    split_ifs at h with hlt
    · obtain ⟨rfl, hrefund⟩ := refundGas_return h
      refine .refused (fun vi' hvi => ?_) hrefund
      obtain rfl := Option.some.inj (hv.symm.trans hvi)
      exact hlt
    · rw [bind_of_eq (arith_apply _ _), bind_of_eq (setValidatorSet_apply _ _),
        bind_of_eq (writeIgnored_apply _ _ _), bind_of_eq (getValidatorSet_apply _),
        bind_of_eq (arith_apply _ _), bind_of_eq (setValidatorSet_apply _ _),
        bind_of_eq (arith_apply _ _)] at h
      obtain ⟨rfl, hrefund⟩ := refundGas_return h
      apply UnstakeRun.done hv (by omega)
      unfold unstakeSet
      simp only [hv, if_neg hlt, ovf_bind, val_bind, ← Bool.or_assoc]
      exact hrefund

theorem unstakeSet_of_lt {vs : ValidatorSet}
    (h : ∀ vi, vs.getValidator stx.sender = some vi → vi.stake < stx.transaction.value) :
    unstakeSet vs stx = pure vs := by
  unfold unstakeSet
  cases hv : vs.getValidator stx.sender with
  | none => rfl
  | some vi => exact if_pos (h vi hv)

theorem executeTransfer_spec (h : executeTransfer tx x l = some ((x', o), l')) :
    ∃ tb b ov, x' = { x with balance := b } ∧
      l' = { l.put (tx.toAddr.getD Address.zero)
        { accountOf l.accounts (tx.toAddr.getD Address.zero) with balance := tb } with
          overflow := ov } ∧
      (ov = false → l.overflow = false ∧
        tb = (accountOf l.accounts (tx.toAddr.getD Address.zero)).balance + tx.value ∧
        tx.value ≤ x.balance ∧
        b = x.balance - tx.value + (tx.gasLimit - baseGas) * tx.gasPrice) := by
  obtain ⟨b, ov, rfl, rfl, hov⟩ := refundGas_spec (executeTransfer_run h).2
  refine ⟨_, b, ov, rfl, rfl, fun hf => ?_⟩
  obtain ⟨hl, hb⟩ := hov hf
  obtain ⟨hl, hc⟩ := Bool.or_eq_false_iff.mp hl
  obtain ⟨hl, hd⟩ := Bool.or_eq_false_iff.mp hl
  obtain ⟨hdb, hle⟩ := Account.debit_balance hd
  exact ⟨hl, Account.credit_balance hc, hle, by rw [hb, hdb]⟩

/-- What a staking transaction leaves: a new balance in the sender's copy, a new validator set, a
database with the same accounts and the overflow flag. -/
structure Restaked (l l' : Loop M Database) (x x' : Account) : Prop where
  account : ∃ b, x' = { x with balance := b }
  loop : ∃ vs d ov, l' = { l with validatorSet := vs, storage := d, overflow := ov }
  chain : SameChain l.storage l'.storage
  contracts : l'.storage.contracts = l.storage.contracts
  overflow : l'.overflow = false → l.overflow = false
  jailFree : JailFree l.validatorSet → JailFree l'.validatorSet

theorem Restaked.accounts_eq (h : Restaked l l' x x') : l'.accounts = l.accounts := by
  obtain ⟨vs, d, ov, rfl⟩ := h.loop
  show l.modifiedAccounts.toFinmap ∪ d.accounts = l.modifiedAccounts.toFinmap ∪ l.storage.accounts
  rw [h.chain.accounts]

theorem executeStake_spec (h : executeStake stx x l = some ((x', o), l')) :
    Restaked l l' x x' ∧ (l'.overflow = false →
      stx.transaction.value ≤ x.balance ∧
      x'.balance = x.balance - stx.transaction.value +
        (stx.transaction.gasLimit - baseGas) * stx.transaction.gasPrice ∧
      stakeTotal l'.validatorSet = stakeTotal l.validatorSet + stx.transaction.value) := by
  obtain ⟨-, vi, hrefund⟩ := executeStake_run h
  obtain ⟨b, ov, rfl, rfl, hov⟩ := refundGas_spec hrefund
  simp only [Bool.or_eq_false_iff] at hov
  refine ⟨⟨⟨b, rfl⟩, ⟨_, _, _, rfl⟩, rfl, rfl, fun hf => (hov hf).1.1.1, fun hj => hj.stakeSet⟩,
    fun hf => ?_⟩
  obtain ⟨⟨⟨-, hd⟩, hs⟩, hb⟩ := hov hf
  obtain ⟨hdb, hle⟩ := Account.debit_balance hd
  exact ⟨hle, by rw [hb, hdb], stakeTotal_stakeSet hs⟩

theorem executeUnstake_spec (h : executeUnstake stx x l = some ((x', o), l')) :
    Restaked l l' x x' ∧ (l'.overflow = false →
      x'.balance + stakeTotal l'.validatorSet = x.balance + stakeTotal l.validatorSet +
        (stx.transaction.gasLimit - baseGas) * stx.transaction.gasPrice) := by
  cases unstakeRun_of_eq_some h with
  | refused _ hrefund =>
    obtain ⟨b, ov, rfl, rfl, hov⟩ := refundGas_spec hrefund
    refine ⟨⟨⟨b, rfl⟩, ⟨_, _, _, rfl⟩, rfl, rfl, fun hf => (hov hf).1, id⟩, fun hf => ?_⟩
    have hb := (hov hf).2
    dsimp only
    omega
  | done hv hle hrefund =>
    obtain ⟨b, ov, rfl, rfl, hov⟩ := refundGas_spec hrefund
    simp only [Bool.or_eq_false_iff] at hov
    refine ⟨⟨⟨b, rfl⟩, ⟨_, _, _, rfl⟩, rfl, rfl, fun hf => (hov hf).1.1.1, fun hj => hj.unstakeSet⟩,
      fun hf => ?_⟩
    obtain ⟨⟨-, hc⟩, hb⟩ := hov hf
    have hcb := Account.credit_balance hc
    have hst := stakeTotal_unstakeSet hv hle
    dsimp only
    omega

end

/-! ### One transaction -/

/-- The nonce check and the balance check of the loop. -/
def Passes (l : Loop M Database) (stx : SignedTransaction) : Prop :=
  stx.transaction.nonce = (accountOf l.accounts stx.sender).nonce ∧
    stx.transaction.totalCost.val ≤ (accountOf l.accounts stx.sender).balance

instance (l : Loop M Database) (stx : SignedTransaction) : Decidable (Passes l stx) := by
  unfold Passes; infer_instance

/-- What happens to the sender's copy before the branch on the type: it pays for all of its gas, and
its nonce goes up. -/
def prepay (tx : Transaction) (x : Account) : Flagged Account := do
  let g ← tx.maxGasCost
  let y ← x.debit g
  y.incrementNonce

/-- The loop state when the branch on the type is entered. -/
def entered (l : Loop M Database) (stx : SignedTransaction) : Loop M Database :=
  { l with overflow := l.overflow || stx.transaction.totalCost.ovf ||
      (prepay stx.transaction (accountOf l.accounts stx.sender)).ovf }

/-- The loop state after the branch: gas is counted, the sender's copy and the receipt are stored.
-/
def finished (l : Loop M Database) (sender : Address) (x : Account) (gas : ℕ)
    (r : TransactionReceipt) : Loop M Database :=
  { l.put sender x with
    receipts := l.receipts ++ [r]
    totalGasUsed := (addU 64 l.totalGasUsed gas).val
    overflow := l.overflow || (addU 64 l.totalGasUsed gas).ovf }

theorem accounts_finished (l : Loop M Database) (sender : Address) (x : Account) (gas : ℕ)
    (r : TransactionReceipt) :
    (finished l sender x gas r).accounts = l.accounts.insert sender x := l.accounts_put sender x

theorem accounts_entered (l : Loop M Database) (stx : SignedTransaction) :
    (entered l stx).accounts = l.accounts := rfl

theorem prepay_balance {x : Account} (h : (prepay tx x).ovf = false) :
    (prepay tx x).val.balance = x.balance - tx.gasLimit * tx.gasPrice ∧
      tx.gasLimit * tx.gasPrice ≤ x.balance := by
  unfold prepay Transaction.maxGasCost at h ⊢
  simp only [ovf_bind, val_bind, Bool.or_eq_false_iff] at h ⊢
  obtain ⟨hm, hd, -⟩ := h
  have hdb := Account.debit_balance hd
  rw [mulU_val hm] at hdb ⊢
  exact hdb

theorem charged_add_refund (tx : Transaction) (g : ℕ) :
    min tx.gasLimit g * tx.gasPrice + (tx.gasLimit - g) * tx.gasPrice =
      tx.gasLimit * tx.gasPrice := by
  have h : min tx.gasLimit g + (tx.gasLimit - g) = tx.gasLimit := by omega
  rw [← Nat.add_mul, h]

section
variable (P : Primitives) (W : Wasmtime) (cfg : VmConfig) (ord : HashOrders)

theorem executeTx_skip (block : Block) (i : ℕ) {stx : SignedTransaction}
    {l : Loop W.Module Database} (h : ¬ Passes l stx) :
    ∃ msg ov, executeTx P W cfg ord block i stx l = some ((), { l with
      receipts := l.receipts ++ [receiptOf P block i stx { status := .failure msg, gasUsed := 0 }]
      overflow := l.overflow || ov }) := by
  unfold executeTx
  rw [bind_of_eq (getOrCreate_apply _ _)]
  by_cases hn : stx.transaction.nonce = (accountOf l.accounts stx.sender).nonce
  · rw [if_neg (not_not.mpr hn), bind_of_eq (arith_apply _ _)]
    have hb : ¬ stx.transaction.totalCost.val ≤ (accountOf l.accounts stx.sender).balance :=
      fun hb => h ⟨hn, hb⟩
    rw [if_pos (by simpa [Account.hasSufficientBalance] using hb)]
    exact ⟨_, _, rfl⟩
  · rw [if_pos hn]
    exact ⟨_, false, by rw [Bool.or_false]; rfl⟩

/-- **A transaction that passes the checks** runs the branch of its type on the prepaid copy of the
sender; the sender's copy is written back last. -/
theorem executeTx_run {block : Block} {i : ℕ} {stx : SignedTransaction}
    {l l' : Loop W.Module Database} (h : Passes l stx)
    (hrun : executeTx P W cfg ord block i stx l = some ((), l')) :
    ∃ x o l1, executeType P W cfg ord block stx
        (prepay stx.transaction (accountOf l.accounts stx.sender)).val (entered l stx) =
          some ((x, o), l1) ∧
      l' = finished l1 stx.sender x o.gasUsed (receiptOf P block i stx o) := by
  unfold executeTx at hrun
  rw [bind_of_eq (getOrCreate_apply _ _), if_neg (not_not.mpr h.1), bind_of_eq (arith_apply _ _),
    if_neg (by simpa [Account.hasSufficientBalance] using h.2)] at hrun
  unfold executeChecked at hrun
  rw [bind_of_eq (arith_apply _ _), bind_of_eq (arith_apply _ _), bind_of_eq (arith_apply _ _)]
    at hrun
  obtain ⟨⟨x, o⟩, l1, h1, h2⟩ := bind_eq_some.mp hrun
  refine ⟨x, o, l1, ?_, ?_⟩
  · rw [← h1]
    unfold entered prepay
    simp only [ovf_bind, val_bind, Bool.or_assoc]
  · exact (some_pair_inj h2).2.symm

end

end Exec

end

/-! ### What a transaction can change -/

/-- Between two tables, every account keeps all but its balance; at an address in `X` there can also
be a new contract account. -/
def Changed (X : Address → Prop) (t t' : Table Address Account) : Prop :=
  ∀ a, (∃ b, accountOf t' a = { accountOf t a with balance := b }) ∨
    X a ∧ ∃ b h, accountOf t' a = Account.newContract a b h

theorem Changed.refl : Changed X t t :=
  fun a => .inl ⟨(accountOf t a).balance, rfl⟩

theorem Changed.trans {X : Address → Prop} {t t' t'' : Table Address Account}
    (h1 : Changed X t t') (h2 : Changed X t' t'') : Changed X t t'' := by
  intro a
  rcases h2 a with ⟨b, hb⟩ | h2
  · rcases h1 a with ⟨c, hc⟩ | ⟨hX, c, h, hc⟩
    · exact .inl ⟨b, by rw [hb, hc]⟩
    · exact .inr ⟨hX, b, h, by rw [hb, hc]; rfl⟩
  · exact .inr h2

theorem Changed.insert_balance (b : ℕ) :
    Changed X t (t.insert a { accountOf t a with balance := b }) := by
  intro c
  by_cases hc : c = a
  · subst hc
    exact .inl ⟨b, accountOf_insert_self _ _ _⟩
  · rw [accountOf_insert_ne _ _ hc]
    exact .inl ⟨_, rfl⟩

theorem Changed.insert_contract {X : Address → Prop} {a : Address} (ha : X a) (b : ℕ)
    (h : Blake3Hash) : Changed X t (t.insert a (Account.newContract a b h)) := by
  intro c
  by_cases hc : c = a
  · subst hc
    exact .inr ⟨ha, b, h, accountOf_insert_self _ _ _⟩
  · rw [accountOf_insert_ne _ _ hc]
    exact .inl ⟨_, rfl⟩

/-- **What the branch of a transaction type can change**, the sender's copy apart. -/
structure Branch {M : Type} (X : Address → Prop) (l l' : Loop M Database) : Prop where
  chain : SameChain l.storage l'.storage
  accounts : Changed X l.accounts l'.accounts
  receipts : l'.receipts = l.receipts
  gas : l'.totalGasUsed = l.totalGasUsed
  overflow : l'.overflow = false → l.overflow = false
  jailFree : JailFree l.validatorSet → JailFree l'.validatorSet

theorem Branch.refl {M : Type} (l : Loop M Database) : Branch X l l :=
  ⟨rfl, .refl X _, rfl, rfl, id, id⟩

theorem Branch.trans {M : Type} {X : Address → Prop} {l l' l'' : Loop M Database}
    (h1 : Branch X l l') (h2 : Branch X l' l'') : Branch X l l'' where
  chain := h1.chain.trans h2.chain
  accounts := h1.accounts.trans h2.accounts
  receipts := h2.receipts.trans h1.receipts
  gas := h2.gas.trans h1.gas
  overflow h := h1.overflow (h2.overflow h)
  jailFree h := h2.jailFree (h1.jailFree h)

namespace Exec

section
variable {M : Type} (X : Address → Prop)

theorem branch_arith {α : Type} (x : Flagged α) :
    Keeps (Branch X) (arith x : ExecM M Database α) := by
  intro l a l' h
  obtain ⟨-, rfl⟩ := some_pair_inj h
  exact ⟨rfl, .refl X _, rfl, rfl, fun h => (Bool.or_eq_false_iff.mp h).1, id⟩

theorem branch_applyBalanceChange (a : Address) (d : ℤ) :
    Keeps (Branch X) (applyBalanceChange a d : ExecM M Database Unit) := by
  intro l u l' h
  unfold applyBalanceChange at h
  rw [bind_of_eq (getOrCreate_apply _ _), bind_of_eq (arith_apply _ _),
    bind_of_eq (arith_apply _ _), insertAccount_apply] at h
  obtain ⟨-, rfl⟩ := some_pair_inj h
  refine ⟨rfl, ?_, rfl, rfl, fun hf => ?_, id⟩
  · rw [Loop.accounts_put]
    exact .insert_balance X l.accounts a _
  · exact (Bool.or_eq_false_iff.mp (Bool.or_eq_false_iff.mp hf).1).1

theorem branch_applyBalanceChanges (order : IterOrder (Sigma fun _ : Address => ℤ))
    (m : HashMap Address ℤ) :
    Keeps (Branch X) (applyBalanceChanges order m : ExecM M Database Unit) :=
  Keeps.forM (Branch.refl X) (fun _ _ _ => Branch.trans) fun _ _ => branch_applyBalanceChange X _ _

theorem branch_writeIgnored {op : StorageOp} {f : Database → Database}
    (hf : ∀ d, SameChain d (f d)) :
    Keeps (Branch X) (writeIgnored op f : ExecM M Database Unit) := by
  intro l u l' h
  obtain ⟨-, rfl⟩ := some_pair_inj h
  refine ⟨hf _, ?_, rfl, rfl, id, id⟩
  show Changed X l.accounts (l.modifiedAccounts.toFinmap ∪ (f l.storage).accounts)
  rw [(hf l.storage).accounts]
  exact .refl X _

theorem branch_applyStorageChanges
    (order : IterOrder (Sigma fun _ : Address × Bytes => Option Bytes))
    (m : HashMap (Address × Bytes) (Option Bytes)) :
    Keeps (Branch X) (applyStorageChanges order m : ExecM M Database Unit) := by
  refine Keeps.forM (Branch.refl X) (fun _ _ _ => Branch.trans) fun e _ => ?_
  unfold applyStorageChange
  cases e.2 with
  | some v => exact branch_writeIgnored X fun _ => rfl
  | none => exact branch_writeIgnored X fun _ => rfl

theorem branch_flush (ord : HashOrders) (c : ExecutionContext) :
    Keeps (Branch X) (flush ord c : ExecM M Database Unit) :=
  Keeps.bind (R := Branch X) (fun _ _ _ => Branch.trans) (branch_applyStorageChanges X _ _)
    fun _ => branch_applyBalanceChanges X _ _

theorem branch_refundGas (tx : Transaction) (g : ℕ) (x : Account) :
    Keeps (Branch X) (refundGas tx g x : ExecM M Database Account) :=
  Keeps.bind (R := Branch X) (fun _ _ _ => Branch.trans) (branch_arith X _) fun _ =>
    branch_arith X _

theorem runVm_spec {α : Type} {c c' : ExecutionContext} {x : VmM M Database α} {a : α}
    {l l' : Loop M Database} (hx : Keeps Frame x) (h : runVm c x l = some ((a, c'), l')) :
    ∃ s, x ⟨c, l.storage, l.moduleCache, l.overflow⟩ = some (a, s) ∧ c' = s.context ∧
      s.storage = l.storage ∧
      l' = { l with moduleCache := s.moduleCache, overflow := s.overflow } := by
  unfold runVm at h
  cases hs : x ⟨c, l.storage, l.moduleCache, l.overflow⟩ with
  | none => rw [hs] at h; cases h
  | some r =>
    obtain ⟨b, s⟩ := r
    rw [hs] at h
    obtain ⟨h1, rfl⟩ := some_pair_inj h
    obtain ⟨rfl, rfl⟩ := Prod.mk.inj h1
    have hst : s.storage = l.storage := (hx _ _ _ hs).1
    exact ⟨s, rfl, rfl, hst, by rw [hst]⟩

end

section
variable (P : Primitives) (W : Wasmtime) (cfg : VmConfig) (ord : HashOrders)

theorem frame_deploy (code args : Bytes) :
    Keeps Frame (deployContract P W cfg code args :
      VmM W.Module Database (Except VmError DeployResult)) :=
  engineRelation_frame.deployContract code args

theorem frame_call (c : Blake3Hash) (name : String) (args : Bytes) :
    Keeps Frame (callContract P W cfg c name args :
      VmM W.Module Database (Except VmError CallResult)) :=
  engineRelation_frame.callContract c name args

/-- The state in which the VM starts for a transaction. -/
def vmStart (block : Block) (stx : SignedTransaction) (contract : Address)
    (l : Loop W.Module Database) : VmState W.Module Database :=
  ⟨contextFor block stx.transaction stx.sender contract, (entered l stx).storage,
    (entered l stx).moduleCache, (entered l stx).overflow⟩

/-- The address where a deployment of a transaction in a block puts the contract. -/
def DeployedAt (block : Block) (stx : SignedTransaction) (a : Address) : Prop :=
  stx.transaction.txType = .contractDeploy ∧ a = deployAddress P stx.sender block.header.number

/-- The VM on the storage and the cache of the loop. -/
def vmOn (context : ExecutionContext) (l : Loop W.Module Database) : VmState W.Module Database :=
  ⟨context, l.storage, l.moduleCache, l.overflow⟩

/-- The loop after a run of the VM that left the state `s`. -/
def afterVm (l : Loop W.Module Database) (s : VmState W.Module Database) : Loop W.Module Database :=
  { l with moduleCache := s.moduleCache, overflow := s.overflow }

/-- The loop with the code and the account of a new contract. -/
def withContract (tx : Transaction) (r : DeployResult) (l : Loop W.Module Database) :
    Loop W.Module Database :=
  { l with storage := l.storage.putContractCode r.codeHash tx.data }.put r.contractAddress
    (Account.newContract r.contractAddress tx.value r.codeHash)

theorem accounts_withContract (tx : Transaction) (r : DeployResult) (l : Loop W.Module Database) :
    (withContract W tx r l).accounts = l.accounts.insert r.contractAddress
      (Account.newContract r.contractAddress tx.value r.codeHash) :=
  Loop.accounts_put _ _ _

/-- **The ways through a deployment**: the VM refuses it; or it returns, and then the changes are
flushed over the new contract account, and the sender pays the value and is paid the refund. -/
inductive DeployRun (block : Block) (tx : Transaction) (sender : Address) (x : Account)
    (l : Loop W.Module Database) : Account → Outcome → Loop W.Module Database → Prop
  | refused {e : VmError} {s : VmState W.Module Database}
      (hvm : deployContract P W cfg tx.data []
        (vmOn W (contextFor block tx sender Address.zero) l) = some (.error e, s)) :
      DeployRun block tx sender x l x
        { status := .failure e.display, gasUsed := tx.gasLimit } (afterVm W l s)
  | done {r : DeployResult} {s : VmState W.Module Database} {l1 l' : Loop W.Module Database}
      {x' : Account}
      (hvm : deployContract P W cfg tx.data []
        (vmOn W (contextFor block tx sender Address.zero) l) = some (.ok r, s))
      (hflush : flush ord s.context (withContract W tx r (afterVm W l s)) = some ((), l1))
      (hrefund : refundGas tx r.gasUsed (x.debit tx.value).val
        { l1 with overflow := l1.overflow || (x.debit tx.value).ovf } = some (x', l')) :
      DeployRun block tx sender x l x'
        { status := .success, gasUsed := r.gasUsed, logs := r.logs
          contractAddress := some r.contractAddress } l'

variable {block : Block} {l l' : Loop W.Module Database} {o : Outcome} {sender : Address}
variable {tx : Transaction} {x x' : Account}

theorem deployRun_of_eq_some
    (h : executeDeploy P W cfg ord block tx sender x l = some ((x', o), l')) :
    DeployRun P W cfg ord block tx sender x l x' o l' := by
  unfold executeDeploy at h
  obtain ⟨⟨res, c⟩, l1, h1, h⟩ := bind_eq_some.mp h
  obtain ⟨s, hvm, rfl, -, rfl⟩ := runVm_spec (frame_deploy P W cfg _ _) h1
  cases res with
  | error e =>
    obtain ⟨h3, rfl⟩ := pure_eq_some h
    obtain ⟨rfl, rfl⟩ := Prod.mk.inj h3
    exact .refused hvm
  | ok r =>
    dsimp only at h
    rw [bind_of_eq (writeIgnored_apply _ _ _), bind_of_eq (insertAccount_apply _ _ _)] at h
    obtain ⟨_, l5, hflush, h⟩ := bind_eq_some.mp h
    rw [bind_of_eq (arith_apply _ _)] at h
    obtain ⟨y, l7, hrefund, h8⟩ := bind_eq_some.mp h
    obtain ⟨h9, rfl⟩ := pure_eq_some h8
    obtain ⟨rfl, rfl⟩ := Prod.mk.inj h9
    exact .done hvm hflush hrefund

theorem executeDeploy_branch
    (h : executeDeploy P W cfg ord block tx sender x l = some ((x', o), l')) :
    Branch (fun a => a = deployAddress P sender block.header.number) l l' ∧
      ∃ b, x' = { x with balance := b } := by
  cases deployRun_of_eq_some P W cfg ord h with
  | refused hvm =>
    have hframe := frame_deploy P W cfg _ _ _ _ _ hvm
    exact ⟨⟨rfl, .refl _ _, rfl, rfl, hframe.2, id⟩, _, rfl⟩
  | @done r s l1 _ _ hvm hflush hrefund =>
    have hframe := frame_deploy P W cfg _ _ _ _ _ hvm
    have hr := (deployContract_result hvm).1
    simp only [vmOn, contextFor, ExecutionContext.new] at hr
    obtain ⟨b, ov, rfl, -, -⟩ := refundGas_spec hrefund
    have hbranch := branch_refundGas (fun a => a = deployAddress P sender block.header.number)
      _ _ _ _ _ _ hrefund
    refine ⟨?_, b, rfl⟩
    have hcreate : Branch (fun a => a = deployAddress P sender block.header.number) l
        (withContract W tx r (afterVm W l s)) := by
      refine ⟨rfl, ?_, rfl, rfl, hframe.2, id⟩
      rw [accounts_withContract]
      exact Changed.insert_contract
        (X := fun a => a = deployAddress P sender block.header.number) l.accounts hr _ _
    have hpaid : Branch (fun a => a = deployAddress P sender block.header.number) l1
        { l1 with overflow := l1.overflow || (x.debit tx.value).ovf } :=
      branch_arith _ (x.debit tx.value) _ _ _ rfl
    exact ((hcreate.trans (branch_flush _ _ _ _ _ _ hflush)).trans hpaid).trans hbranch

theorem codeHash_accountOf (t : Table Address Account) (a : Address) :
    (accountOf t a).codeHash = (t.lookup a).bind (·.codeHash) := by
  unfold accountOf
  cases t.lookup a <;> rfl

/-- **The ways through a call**: there is no code at the target; or the VM refuses the call; or it
returns that the call failed, or that it succeeded, and then the changes are flushed. -/
inductive CallRun (block : Block) (tx : Transaction) (sender : Address) (x : Account)
    (l : Loop W.Module Database) : Account → Outcome → Loop W.Module Database → Prop
  | noCode {msg : String}
      (hcode : (l.accounts.lookup (tx.toAddr.getD Address.zero)).bind (·.codeHash) = none) :
      CallRun block tx sender x l x { status := .failure msg, gasUsed := baseGas } l
  | refused {codeHash : Blake3Hash} {e : VmError} {s : VmState W.Module Database}
      (hcode : (l.accounts.lookup (tx.toAddr.getD Address.zero)).bind (·.codeHash) = some codeHash)
      (hvm : callContract P W cfg codeHash (extractFunctionName tx.data).1
        (extractFunctionName tx.data).2
        (vmOn W (contextFor block tx sender (tx.toAddr.getD Address.zero)) l) =
          some (.error e, s)) :
      CallRun block tx sender x l x
        { status := .failure e.display, gasUsed := tx.gasLimit } (afterVm W l s)
  | failed {codeHash : Blake3Hash} {r : CallResult} {s : VmState W.Module Database}
      {l' : Loop W.Module Database} {x' : Account}
      (hcode : (l.accounts.lookup (tx.toAddr.getD Address.zero)).bind (·.codeHash) = some codeHash)
      (hvm : callContract P W cfg codeHash (extractFunctionName tx.data).1
        (extractFunctionName tx.data).2
        (vmOn W (contextFor block tx sender (tx.toAddr.getD Address.zero)) l) = some (.ok r, s))
      (hst : r.status ≠ .success)
      (hrefund : refundGas tx r.gasUsed x (afterVm W l s) = some (x', l')) :
      CallRun block tx sender x l x'
        { status := r.status, gasUsed := r.gasUsed, logs := r.logs, returnData := r.returnData } l'
  | done {codeHash : Blake3Hash} {r : CallResult} {s : VmState W.Module Database}
      {l1 l' : Loop W.Module Database} {x' : Account}
      (hcode : (l.accounts.lookup (tx.toAddr.getD Address.zero)).bind (·.codeHash) = some codeHash)
      (hvm : callContract P W cfg codeHash (extractFunctionName tx.data).1
        (extractFunctionName tx.data).2
        (vmOn W (contextFor block tx sender (tx.toAddr.getD Address.zero)) l) = some (.ok r, s))
      (hst : r.status = .success)
      (hflush : flush ord s.context (afterVm W l s) = some ((), l1))
      (hrefund : refundGas tx r.gasUsed x l1 = some (x', l')) :
      CallRun block tx sender x l x'
        { status := r.status, gasUsed := r.gasUsed, logs := r.logs, returnData := r.returnData } l'

theorem callRun_of_callOn {codeHash : Blake3Hash}
    (hcode : (l.accounts.lookup (tx.toAddr.getD Address.zero)).bind (·.codeHash) = some codeHash)
    (h : executeCallOn P W cfg ord block tx sender (tx.toAddr.getD Address.zero) codeHash x l =
      some ((x', o), l')) :
    CallRun P W cfg ord block tx sender x l x' o l' := by
  unfold executeCallOn at h
  obtain ⟨⟨res, c⟩, l1, h1, h⟩ := bind_eq_some.mp h
  obtain ⟨s, hvm, rfl, -, rfl⟩ := runVm_spec (frame_call P W cfg _ _ _) h1
  cases res with
  | error e =>
    obtain ⟨h3, rfl⟩ := pure_eq_some h
    obtain ⟨rfl, rfl⟩ := Prod.mk.inj h3
    exact .refused hcode hvm
  | ok r =>
    dsimp only at h
    split_ifs at h with hst
    · obtain ⟨_, l5, hflush, h⟩ := bind_eq_some.mp h
      obtain ⟨y, l7, hrefund, h8⟩ := bind_eq_some.mp h
      obtain ⟨h9, rfl⟩ := pure_eq_some h8
      obtain ⟨rfl, rfl⟩ := Prod.mk.inj h9
      exact .done hcode hvm hst hflush hrefund
    · obtain ⟨y, l7, hrefund, h8⟩ := bind_eq_some.mp h
      obtain ⟨h9, rfl⟩ := pure_eq_some h8
      obtain ⟨rfl, rfl⟩ := Prod.mk.inj h9
      exact .failed hcode hvm hst hrefund

theorem callRun_of_eq_some (h : executeCall P W cfg ord block tx sender x l = some ((x', o), l')) :
    CallRun P W cfg ord block tx sender x l x' o l' := by
  unfold executeCall at h
  rw [bind_of_eq (lookupAccount_apply _ _)] at h
  cases hl : l.accounts.lookup (tx.toAddr.getD Address.zero) with
  | none =>
    rw [hl] at h
    obtain ⟨h3, rfl⟩ := pure_eq_some h
    obtain ⟨rfl, rfl⟩ := Prod.mk.inj h3
    exact .noCode (by rw [hl]; rfl)
  | some acct =>
    cases hc : acct.codeHash with
    | none =>
      simp only [hl, hc] at h
      obtain ⟨h3, rfl⟩ := pure_eq_some h
      obtain ⟨rfl, rfl⟩ := Prod.mk.inj h3
      exact .noCode (by rw [hl]; exact hc)
    | some codeHash =>
      simp only [hl, hc] at h
      exact callRun_of_callOn P W cfg ord (by rw [hl]; exact hc) h

theorem executeCall_branch {X : Address → Prop}
    (h : executeCall P W cfg ord block tx sender x l = some ((x', o), l')) :
    Branch X l l' ∧ ∃ b, x' = { x with balance := b } := by
  have hvmBranch : ∀ {codeHash : Blake3Hash} {r s},
      callContract P W cfg codeHash (extractFunctionName tx.data).1 (extractFunctionName tx.data).2
        (vmOn W (contextFor block tx sender (tx.toAddr.getD Address.zero)) l) = some (r, s) →
      Branch X l (afterVm W l s) := fun hvm =>
    ⟨rfl, .refl X _, rfl, rfl, (frame_call P W cfg _ _ _ _ _ _ hvm).2, id⟩
  cases callRun_of_eq_some P W cfg ord h with
  | noCode => exact ⟨.refl X _, _, rfl⟩
  | refused _ hvm => exact ⟨hvmBranch hvm, _, rfl⟩
  | failed _ hvm _ hrefund =>
    obtain ⟨b, ov, rfl, -, -⟩ := refundGas_spec hrefund
    exact ⟨(hvmBranch hvm).trans (branch_refundGas X _ _ _ _ _ _ hrefund), b, rfl⟩
  | done _ hvm _ hflush hrefund =>
    obtain ⟨b, ov, rfl, -, -⟩ := refundGas_spec hrefund
    exact ⟨((hvmBranch hvm).trans (branch_flush X _ _ _ _ _ hflush)).trans
      (branch_refundGas X _ _ _ _ _ _ hrefund), b, rfl⟩

theorem Restaked.branch {X : Address → Prop} {M : Type} {l l' : Loop M Database}
    (h : Restaked l l' x x') : Branch X l l' := by
  have hacc := h.accounts_eq
  obtain ⟨vs, d, ov, hl⟩ := h.loop
  refine ⟨h.chain, hacc ▸ .refl X _, by rw [hl], by rw [hl], h.overflow, h.jailFree⟩

/-- **The branch of any transaction type** changes balances, and at most one address gets a new
contract account. -/
theorem executeType_branch {stx : SignedTransaction}
    (h : executeType P W cfg ord block stx x l = some ((x', o), l')) :
    Branch (DeployedAt P block stx) l l' ∧ ∃ b, x' = { x with balance := b } := by
  unfold executeType at h
  cases ht : stx.transaction.txType with
  | transfer =>
    rw [ht] at h
    obtain ⟨tb, b, ov, rfl, rfl, hov⟩ := executeTransfer_spec h
    refine ⟨⟨rfl, ?_, rfl, rfl, fun hf => (hov hf).1, id⟩, b, rfl⟩
    show Changed _ l.accounts (l.put _ _).accounts
    rw [Loop.accounts_put]
    exact .insert_balance _ _ _ _
  | contractDeploy =>
    rw [ht] at h
    obtain ⟨hb, hx⟩ := executeDeploy_branch P W cfg ord h
    have hX : (fun a => a = deployAddress P stx.sender block.header.number) =
        DeployedAt P block stx := by
      funext a
      simp [DeployedAt, ht]
    exact ⟨hX ▸ hb, hx⟩
  | contractCall =>
    rw [ht] at h
    exact executeCall_branch P W cfg ord h
  | stake =>
    rw [ht] at h
    have hs := (executeStake_spec h).1
    exact ⟨hs.branch, hs.account⟩
  | unstake =>
    rw [ht] at h
    have hs := (executeUnstake_spec h).1
    exact ⟨hs.branch, hs.account⟩

end

end Exec

end Rustchain.Consensus
