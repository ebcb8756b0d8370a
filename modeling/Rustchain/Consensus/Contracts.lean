import Rustchain.Consensus.Block
import Rustchain.Lib.Overlay
import Rustchain.Vm.Deltas

/-! # What contract transactions leave

The changes of a contract execution are flushed in the order in which two hash maps are iterated;
the result does not depend on that order. The code of a contract is stored under its hash before the
contract account exists, so the code of every contract account can be loaded. -/

namespace Rustchain.Consensus

open Rustchain.Core Storage Vm Lib.Machine Lib.Maps Lib.Partial

/-! ### The flush -/

/-- One journaled write on the table of contract storage. -/
def storageWritten (t : Table Bytes Bytes) (e : Sigma fun _ : Address × Bytes => Option Bytes) :
    Table Bytes Bytes :=
  match e.2 with
  | some v => t.insert (contractStorageKey e.1.1 e.1.2) v
  | none => t.erase (contractStorageKey e.1.1 e.1.2)

def balanceMoved (t : Table Address Account) (e : Sigma fun _ : Address => ℤ) :
    Table Address Account :=
  t.insert e.1 { accountOf t e.1 with
    balance := (seenBalance (accountOf t e.1).balance e.2).val }

variable (t : Table Bytes Bytes) (e : Sigma fun _ : Address × Bytes => Option Bytes) (k : Bytes)

theorem storageWritten_eq_put :
    storageWritten t e = Lib.Overlay.put t (contractStorageKey e.1.1 e.1.2) e.2 := by
  unfold storageWritten
  cases e.2 <;> rfl

theorem lookup_storageWritten :
    (storageWritten t e).lookup k =
      if k = contractStorageKey e.1.1 e.1.2 then e.2 else t.lookup k := by
  rw [storageWritten_eq_put]
  exact Lib.Overlay.lookup_put t _ k e.2

theorem storageWritten_comm (e e' : Sigma fun _ : Address × Bytes => Option Bytes)
    (h : e.1 ≠ e'.1) :
    storageWritten (storageWritten t e) e' = storageWritten (storageWritten t e') e := by
  have hne : contractStorageKey e.1.1 e.1.2 ≠ contractStorageKey e'.1.1 e'.1.2 := fun he =>
    h (Prod.ext_iff.mpr (contractStorageKey_injective he))
  refine Finmap.ext_lookup fun k => ?_
  simp only [lookup_storageWritten]
  split_ifs with h1 h2
  · exact absurd (h2.symm.trans h1) hne
  · rfl
  · rfl
  · rfl

theorem balanceMoved_comm (t : Table Address Account) (e e' : Sigma fun _ : Address => ℤ)
    (h : e.1 ≠ e'.1) :
    balanceMoved (balanceMoved t e) e' = balanceMoved (balanceMoved t e') e := by
  unfold balanceMoved
  rw [accountOf_insert_ne _ _ h.symm, accountOf_insert_ne _ _ h, Finmap.insert_insert_of_ne _ h]

/-- The storage table after the flush of a context. -/
def storageFlushed (c : ExecutionContext) (t : Table Bytes Bytes) : Table Bytes Bytes :=
  c.storageChanges.entries.foldl storageWritten t

def balancesFlushed (c : ExecutionContext) (t : Table Address Account) : Table Address Account :=
  c.balanceChanges.entries.foldl balanceMoved t

/-- **What a flush leaves**: the changes of the context in the tables, all else as it was. -/
structure Flushed {M : Type} (c : ExecutionContext) (l l' : Loop M Database) : Prop where
  storage : l'.storage =
    { l.storage with contractStorage := storageFlushed c l.storage.contractStorage }
  accounts : l'.accounts = balancesFlushed c l.accounts
  validatorSet : l'.validatorSet = l.validatorSet
  moduleCache : l'.moduleCache = l.moduleCache
  receipts : l'.receipts = l.receipts

namespace Exec

section
variable {M : Type}

theorem forM_applyStorageChange : ∀ (es : List (Sigma fun _ : Address × Bytes => Option Bytes))
    (l : Loop M Database), es.forM (fun e => applyStorageChange e.1 e.2) l =
      some ((), { l with storage := { l.storage with
        contractStorage := es.foldl storageWritten l.storage.contractStorage } })
  | [], _ => rfl
  | e :: es, l => by
    have hstep : applyStorageChange e.1 e.2 l = some ((), { l with storage := { l.storage with
        contractStorage := storageWritten l.storage.contractStorage e } }) := by
      unfold applyStorageChange storageWritten
      cases e.2 <;> rfl
    show (applyStorageChange e.1 e.2 >>= fun _ => es.forM _) l = _
    rw [bind_of_eq hstep]
    exact forM_applyStorageChange es _

theorem applyBalanceChange_apply (e : Sigma fun _ : Address => ℤ) (l : Loop M Database) :
    ∃ ov, applyBalanceChange e.1 e.2 l = some ((), { l.put e.1 { accountOf l.accounts e.1 with
      balance := (seenBalance (accountOf l.accounts e.1).balance e.2).val } with
        overflow := ov }) := by
  unfold applyBalanceChange
  rw [bind_of_eq (getOrCreate_apply _ _), bind_of_eq (arith_apply _ _),
    bind_of_eq (arith_apply _ _), insertAccount_apply, seenBalance_val]
  exact ⟨_, rfl⟩

theorem forM_applyBalanceChange : ∀ (es : List (Sigma fun _ : Address => ℤ))
    (l : Loop M Database), ∃ o ov, es.forM (fun e => applyBalanceChange e.1 e.2) l =
        some ((), { l with modifiedAccounts := o, overflow := ov }) ∧
      o.toFinmap ∪ l.storage.accounts = es.foldl balanceMoved l.accounts
  | [], l => ⟨l.modifiedAccounts, l.overflow, rfl, rfl⟩
  | e :: es, l => by
    obtain ⟨ov, hstep⟩ := applyBalanceChange_apply e l
    obtain ⟨o, ov', hrest, hacc⟩ := forM_applyBalanceChange es { l.put e.1
      { accountOf l.accounts e.1 with
        balance := (seenBalance (accountOf l.accounts e.1).balance e.2).val } with
          overflow := ov }
    refine ⟨o, ov', ?_, ?_⟩
    · show (applyBalanceChange e.1 e.2 >>= fun _ => es.forM _) l = _
      rw [bind_of_eq hstep]
      exact hrest
    · refine hacc.trans ?_
      show List.foldl balanceMoved (l.put e.1 _).accounts es = _
      rw [Loop.accounts_put]
      rfl

theorem flush_apply (ord : HashOrders) (c : ExecutionContext) (l : Loop M Database) :
    ∃ l', flush ord c l = some ((), l') ∧ Flushed c l l' := by
  have hstorage : applyStorageChanges ord.storage c.storageChanges l = _ :=
    forM_applyStorageChange _ l
  rw [foldl_visit_eq storageWritten_comm _ (.listed _)] at hstorage
  obtain ⟨o, ov, hbal, hacc⟩ := forM_applyBalanceChange
    (ord.balances.visit c.balanceChanges.entries) { l with storage := { l.storage with
      contractStorage := storageFlushed c l.storage.contractStorage } }
  rw [foldl_visit_eq balanceMoved_comm _ (.listed _)] at hacc
  exact ⟨_, (bind_of_eq hstorage).trans hbal, rfl, hacc, rfl, rfl, rfl⟩

theorem flushed_of_flush {ord : HashOrders} {c : ExecutionContext} {u : Unit}
    {l l' : Loop M Database} (h : flush ord c l = some (u, l')) : Flushed c l l' := by
  obtain ⟨l1, h1, hf⟩ := flush_apply ord c l
  rw [h1] at h
  obtain ⟨-, rfl⟩ := some_pair_inj h
  exact hf

end

end Exec

/-! ### The code of contracts -/

/-- An address has the code hash of before, or the one in `new`. -/
def CodeChange (new : Option Blake3Hash) (t t' : Table Address Account) : Prop :=
  ∀ a, (accountOf t' a).codeHash = (accountOf t a).codeHash ∨
    new ≠ none ∧ (accountOf t' a).codeHash = new

theorem Changed.codeChange {X : Address → Prop} {t t' : Table Address Account}
    (h : Changed X t t') (hX : ∀ a, ¬ X a) (new : Option Blake3Hash) : CodeChange new t t' := by
  intro a
  rcases h a with ⟨b, hb⟩ | ⟨ha, -⟩
  · exact .inl (by rw [hb])
  · exact absurd ha (hX a)

/-- **What a transaction does to contract code**: nothing, or a deployment stores the code it
carries and makes an account with the hash of it. -/
def CodeStep (P : Primitives) (stx : SignedTransaction) {M : Type} (l l' : Loop M Database) :
    Prop :=
  l'.storage.contracts = l.storage.contracts ∧ CodeChange none l.accounts l'.accounts ∨
    stx.transaction.txType = .contractDeploy ∧
      l'.storage.contracts = l.storage.contracts.insert (P.blake3 stx.transaction.data)
        stx.transaction.data ∧
      CodeChange (some (P.blake3 stx.transaction.data)) l.accounts l'.accounts

namespace Exec

section
variable {P : Primitives} {W : Wasmtime} {cfg : VmConfig} {ord : HashOrders}

variable {l l' : Loop W.Module Database}

theorem contracts_executeCall {block : Block} {tx : Transaction} {sender : Address} {x x' : Account}
    {o : Outcome} (h : executeCall P W cfg ord block tx sender x l = some ((x', o), l')) :
    l'.storage.contracts = l.storage.contracts := by
  cases callRun_of_eq_some P W cfg ord h with
  | noCode => rfl
  | refused => rfl
  | failed _ _ _ hrefund =>
    obtain ⟨b, ov, -, rfl, -⟩ := refundGas_spec hrefund
    rfl
  | @done _ _ _ l1 _ _ _ _ _ hflush hrefund =>
    obtain ⟨b, ov, -, rfl, -⟩ := refundGas_spec hrefund
    show l1.storage.contracts = _
    rw [(flushed_of_flush hflush).storage]
    rfl

variable {stx : SignedTransaction}

theorem codeStep_executeDeploy {block : Block} {x x' : Account} {o : Outcome}
    (ht : stx.transaction.txType = .contractDeploy)
    (h : executeDeploy P W cfg ord block stx.transaction stx.sender x l = some ((x', o), l')) :
    CodeStep P stx l l' := by
  cases deployRun_of_eq_some P W cfg ord h with
  | refused => exact .inl ⟨rfl, fun a => .inl rfl⟩
  | @done r s l1 _ _ hvm hflush hrefund =>
    obtain ⟨b, ov, -, rfl, -⟩ := refundGas_spec hrefund
    have hhash := (deployContract_result hvm).2
    refine .inr ⟨ht, ?_, fun a => ?_⟩
    · show l1.storage.contracts = _
      rw [(flushed_of_flush hflush).storage, ← hhash]
      rfl
    · -- the flush keeps every code hash, so only the new account differs
      have hkept := ((branch_flush (fun _ => False) _ _ _ _ _ hflush).accounts.codeChange
        (fun _ h => h) none a).resolve_right fun hn => hn.1 rfl
      show (accountOf l1.accounts a).codeHash = _ ∨ _ ∧ (accountOf l1.accounts a).codeHash = _
      rw [hkept, accounts_withContract, accountOf_insert, ← hhash]
      split_ifs with ha
      · exact .inr ⟨by simp, rfl⟩
      · exact .inl rfl

theorem codeStep_executeType {block : Block} {x x' : Account} {o : Outcome}
    (h : executeType P W cfg ord block stx x l = some ((x', o), l')) : CodeStep P stx l l' := by
  have hbranch := (executeType_branch P W cfg ord h).1
  have hplain : stx.transaction.txType ≠ .contractDeploy →
      l'.storage.contracts = l.storage.contracts → CodeStep P stx l l' := fun ht hc =>
    .inl ⟨hc, hbranch.accounts.codeChange (fun a ha => ht ha.1) none⟩
  unfold executeType at h
  cases ht : stx.transaction.txType with
  | transfer =>
    rw [ht] at h
    obtain ⟨tb, b, ov, -, rfl, -⟩ := executeTransfer_spec h
    exact hplain (by simp [ht]) rfl
  | contractDeploy =>
    rw [ht] at h
    exact codeStep_executeDeploy ht h
  | contractCall =>
    rw [ht] at h
    exact hplain (by simp [ht]) (contracts_executeCall h)
  | stake =>
    rw [ht] at h
    exact hplain (by simp [ht]) (executeStake_spec h).1.contracts
  | unstake =>
    rw [ht] at h
    exact hplain (by simp [ht]) (executeUnstake_spec h).1.contracts

theorem codeChange_finished {M : Type} {new : Option Blake3Hash} {t : Table Address Account}
    {l : Loop M Database} (h : CodeChange new t l.accounts) {sender : Address} {x : Account}
    (hx : x.codeHash = (accountOf t sender).codeHash) (gas : ℕ) (r : TransactionReceipt) :
    CodeChange new t (finished l sender x gas r).accounts := by
  intro a
  rw [accounts_finished, accountOf_insert]
  split_ifs with ha
  · exact .inl (by rw [hx, ha])
  · exact h a

theorem prepay_codeHash (tx : Transaction) (x : Account) :
    (prepay tx x).val.codeHash = x.codeHash := by
  unfold prepay
  rw [val_bind, val_bind]
  rfl

theorem executeTx_codeStep {block : Block} {i : ℕ}
    (h : executeTx P W cfg ord block i stx l = some ((), l')) :
    CodeStep P stx l l' := by
  by_cases hp : Passes l stx
  · obtain ⟨x, o, l1, ht, rfl⟩ := executeTx_run P W cfg ord hp h
    obtain ⟨-, b, rfl⟩ := executeType_branch P W cfg ord ht
    have hx := prepay_codeHash stx.transaction (accountOf l.accounts stx.sender)
    generalize (prepay stx.transaction (accountOf l.accounts stx.sender)).val = y at ht hx ⊢
    rcases codeStep_executeType ht with ⟨hc, ha⟩ | ⟨hd, hc, ha⟩
    · exact .inl ⟨hc, codeChange_finished (x := { y with balance := b }) ha hx _ _⟩
    · exact .inr ⟨hd, hc, codeChange_finished (x := { y with balance := b }) ha hx _ _⟩
  · obtain ⟨msg, ov, hs⟩ := executeTx_skip P W cfg ord block i hp
    rw [hs] at h
    obtain ⟨-, rfl⟩ := some_pair_inj h
    exact .inl ⟨rfl, fun a => .inl rfl⟩

end

end Exec

/-- A hash under which code in `codes` with that hash is stored. -/
def CodeKnown (P : Primitives) (codes : Set Bytes) (d : Database) (h : Blake3Hash) : Prop :=
  ∃ code ∈ codes, P.blake3 code = h ∧ d.contracts.lookup h = some code

/-- The code of every contract account is stored. -/
def Coded (P : Primitives) (codes : Set Bytes) (d : Database) (t : Table Address Account) : Prop :=
  ∀ a h, (accountOf t a).codeHash = some h → CodeKnown P codes d h

/-- What the deployments among some transactions carry is in `codes`. -/
def DeploysFrom (codes : Set Bytes) (txs : List SignedTransaction) : Prop :=
  ∀ stx ∈ txs, stx.transaction.txType = .contractDeploy → stx.transaction.data ∈ codes

section
variable {P : Primitives} {codes : Set Bytes}

theorem Coded.codeStep {M : Type} {stx : SignedTransaction} {l l' : Loop M Database}
    (h : Coded P codes l.storage l.accounts) (hs : CodeStep P stx l l')
    (hd : stx.transaction.txType = .contractDeploy → stx.transaction.data ∈ codes) :
    Coded P codes l'.storage l'.accounts := by
  intro a k hk
  rcases hs with ⟨hc, ha⟩ | ⟨ht, hc, ha⟩
  · rw [(ha a).resolve_right fun hn => hn.1 rfl] at hk
    obtain ⟨code, hcode, hh, hl⟩ := h a k hk
    exact ⟨code, hcode, hh, by rw [hc, hl]⟩
  · by_cases hnew : k = P.blake3 stx.transaction.data
    · exact ⟨_, hd ht, hnew.symm, by rw [hc, hnew, Finmap.lookup_insert]⟩
    · have hold : (accountOf l.accounts a).codeHash = some k := by
        rcases ha a with ha | ⟨-, ha⟩
        · rw [← ha, hk]
        · exact absurd (Option.some.inj (hk.symm.trans ha)) hnew
      obtain ⟨code, hcode, hh, hl⟩ := h a k hold
      exact ⟨code, hcode, hh, by rw [hc, Finmap.lookup_insert_of_ne _ hnew, hl]⟩

theorem Coded.executeTxs {W : Wasmtime} {cfg : VmConfig} {ord : ℕ → HashOrders} {block : Block}
    {txs : List SignedTransaction} {i : ℕ} {l l' : Loop W.Module Database}
    (h : Coded P codes l.storage l.accounts) (hd : DeploysFrom codes txs)
    (hl : Exec.executeTxs P W cfg ord block i txs l = some ((), l')) :
    Coded P codes l'.storage l'.accounts :=
  Exec.keeps_executeTxs (R := fun l l' => Coded P codes l.storage l.accounts →
      Coded P codes l'.storage l'.accounts) (fun _ h => h) (fun _ _ _ h1 h2 h => h2 (h1 h))
    (fun stx hstx _ _ _ _ ht hc => hc.codeStep (Exec.executeTx_codeStep ht) (hd stx hstx))
    _ _ _ hl h

end

end Rustchain.Consensus
