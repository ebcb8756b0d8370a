import Rustchain.Consensus.Contracts
import Rustchain.Consensus.GasLimits
import Rustchain.Vm.StorageJournal

/-! # The storage of contracts after a transaction

A contract transaction that succeeds flushes the journal of its execution, in the order of a hash
map, and one that does not leaves contract storage alone. The flush leaves what the accesses of the
execution would have left if they had been made on the database directly. There is one exception: a
deployment of a module without a constructor succeeds with the context that was put in place of the
one of the execution, so what the start function of the module wrote is not flushed
(`journalRefines_iff`). -/

namespace Rustchain.Consensus

open Rustchain.Core Storage Vm Lib.Machine Lib.Maps Lib.Partial Lib

/-! ### The flush of a journal -/

theorem storageFlushed_eq_written (c : ExecutionContext) (t : Table Bytes Bytes) :
    storageFlushed c t = Overlay.written storagePlace c.storageChanges t := by
  have hput : storageWritten = fun (t : Table Bytes Bytes)
      (e : Sigma fun _ : Address × Bytes => Option Bytes) =>
        Overlay.put t (storagePlace e.1) e.2 := funext fun t => funext (storageWritten_eq_put t)
  unfold storageFlushed Overlay.written
  rw [hput]

/-- **The journal refines direct storage**: the reads of a run are answered as by the database on
which the accesses are made directly, the flush in any order leaves that database, and the entries
of contracts that were not accessed are as before. -/
structure RefinesDirect {M : Type} (vm vm' : VmState M Database) (as : List StorageAccess) : Prop
    where
  answered : AllAnswered vm.storage as
  flushed : ∀ (order : IterOrder (Sigma fun _ : Address × Bytes => Option Bytes))
    (l : Loop M Database), l.storage = vm.storage →
      Exec.applyStorageChanges order vm'.context.storageChanges l =
        some ((), { l with storage := directly vm.storage as })
  others : ∀ addr, (∀ a ∈ as, a.addr ≠ addr) → ∀ key,
    (directly vm.storage as).contractStorage.lookup (contractStorageKey addr key) =
      vm.storage.contractStorage.lookup (contractStorageKey addr key)

theorem refinesDirect_of_performs {M : Type} {vm vm' : VmState M Database}
    {as : List StorageAccess} (hempty : vm.context.storageChanges = ∅) (h : Performs vm as vm') :
    RefinesDirect vm vm' as := by
  obtain ⟨hstorage, hanswered, hview⟩ := h.refines
  rw [journalView_of_empty hempty] at hanswered hview
  refine ⟨hanswered, fun order l hl => ?_, fun addr hne key => lookup_directly_of_ne key _ hne⟩
  have hflush : Exec.applyStorageChanges order vm'.context.storageChanges l = _ :=
    Exec.forM_applyStorageChange _ l
  rw [foldl_visit_eq storageWritten_comm _ (.listed _)] at hflush
  rw [hflush, ← hview, hl, ← hstorage]
  exact congrArg
    (fun t => some ((), { l with storage := { vm'.storage with contractStorage := t } }))
    (storageFlushed_eq_written vm'.context _)

/-! ### Transactions -/

namespace Exec

section
variable (P : Primitives) (W : Wasmtime) (cfg : VmConfig)

/-- **The accesses to contract storage** of the contract execution of a transaction, in turn. -/
def storageAccesses (block : Block) (stx : SignedTransaction) (l : Loop W.Module Database) :
    List StorageAccess :=
  match contractEntry stx l with
  | some (entry, contract) => entry.storageAccesses P W cfg (vmStart W block stx contract l)
  | none => []

/-- The contract function that a transaction executes returns. -/
def Returns (block : Block) (stx : SignedTransaction) (l : Loop W.Module Database) : Prop :=
  ∃ entry contract, contractEntry stx l = some (entry, contract) ∧
    entry.Returns P W cfg (vmStart W block stx contract l)

def contractOf (block : Block) (stx : SignedTransaction) : Address :=
  match stx.transaction.txType with
  | .contractDeploy => deployAddress P stx.sender block.header.number
  | _ => stx.transaction.toAddr.getD Address.zero

/-- **A transaction keeps to direct storage**: if it succeeds, its reads were answered as by the
database on which its accesses are made directly, contract storage is left as these leave it, and
the entries of other contracts are as before; and if it does not, all of contract storage is. -/
structure JournalRefines (block : Block) (stx : SignedTransaction) (l l' : Loop W.Module Database)
    (status : TxStatus) : Prop where
  answered : status = .success → AllAnswered l.storage (storageAccesses P W cfg block stx l)
  column : status = .success → l'.storage.contractStorage =
    (directly l.storage (storageAccesses P W cfg block stx l)).contractStorage
  others : status = .success → ∀ addr key, addr ≠ contractOf P block stx →
    l'.storage.contractStorage.lookup (contractStorageKey addr key) =
      l.storage.contractStorage.lookup (contractStorageKey addr key)
  failed : status ≠ .success → l'.storage.contractStorage = l.storage.contractStorage

end

section
variable {P : Primitives} {W : Wasmtime} {cfg : VmConfig} {ord : HashOrders} {block : Block}
  {stx : SignedTransaction} {l l' l1 : Loop W.Module Database} {x : Account} {o : Outcome}

theorem exists_run_of_success
    (ht : stx.transaction.txType = .contractDeploy ∨ stx.transaction.txType = .contractCall)
    (h : executeType P W cfg ord block stx
      (prepay stx.transaction (accountOf l.accounts stx.sender)).val (entered l stx) =
        some ((x, o), l1)) (hsuccess : o.status = .success) :
    ∃ entry contract r s, contractEntry stx l = some (entry, contract) ∧
      entry.Completes P W cfg (vmStart W block stx contract l) ∧
      entry.run P W cfg (vmStart W block stx contract l) = some (r, s) ∧
      entry.contract P (vmStart W block stx contract l) = contractOf P block stx ∧
      l1.storage.contractStorage = storageFlushed s.context l.storage.contractStorage := by
  unfold executeType at h
  rcases ht with ht | ht
  · rw [ht] at h
    have hentry := contractEntry_deploy (l := l) ht
    have hcontract : contractOf P block stx = deployAddress P stx.sender block.header.number := by
      simp only [contractOf, ht]
    cases deployRun_of_eq_some P W cfg ord h with
    | refused hvm => cases hsuccess
    | done hvm hflush hrefund =>
      have hcompletes := (completes_deploy_iff (l := l) ht hvm).mpr ⟨_, rfl⟩
      rw [refundGas_apply] at hrefund
      obtain ⟨-, rfl⟩ := some_pair_inj hrefund
      refine ⟨_, _, _, _, hentry, (completes_iff_entry hentry).mp hcompletes,
        Entry.run_deploy hvm, hcontract.symm, ?_⟩
      exact congrArg Database.contractStorage (flushed_of_flush hflush).storage
  · rw [ht] at h
    have hcontract : contractOf P block stx = stx.transaction.toAddr.getD Address.zero := by
      simp only [contractOf, ht]
    cases callRun_of_eq_some P W cfg ord h with
    | noCode hcode => cases hsuccess
    | refused hcode hvm => cases hsuccess
    | failed hcode hvm hst => exact absurd hsuccess hst
    | done hcode hvm hst hflush hrefund =>
      have hentry := contractEntry_call (l := l) ht hcode
      have hcompletes := (completes_call_iff (l := l) ht hcode hvm).mpr ⟨_, rfl, hst⟩
      rw [refundGas_apply] at hrefund
      obtain ⟨-, rfl⟩ := some_pair_inj hrefund
      refine ⟨_, _, _, _, hentry, (completes_iff_entry hentry).mp hcompletes,
        Entry.run_call hvm, hcontract.symm, ?_⟩
      exact congrArg Database.contractStorage (flushed_of_flush hflush).storage

theorem unapplied_of_not_success {i : ℕ}
    (ht : stx.transaction.txType = .contractDeploy ∨ stx.transaction.txType = .contractCall)
    (h : executeType P W cfg ord block stx
      (prepay stx.transaction (accountOf l.accounts stx.sender)).val (entered l stx) =
        some ((x, o), l1)) (hfailed : o.status ≠ .success) :
    Unapplied stx l (finished l1 stx.sender x o.gasUsed (receiptOf P block i stx o)) := by
  unfold executeType at h
  rcases ht with ht | ht
  · rw [ht] at h
    exact (deploy_status ht h).2 hfailed
  · rw [ht] at h
    exact (call_status ht h).2 hfailed

theorem returns_iff_entry {entry : Entry} {contract : Address}
    (hentry : contractEntry stx l = some (entry, contract)) :
    Returns P W cfg block stx l ↔ entry.Returns P W cfg (vmStart W block stx contract l) := by
  constructor
  · rintro ⟨entry', contract', h, hreturns⟩
    cases hentry.symm.trans h
    exact hreturns
  · exact fun hreturns => ⟨entry, contract, hentry, hreturns⟩

theorem journalRefines_of_failed (hfailed : o.status ≠ .success)
    (hstorage : l'.storage = l.storage) : JournalRefines P W cfg block stx l l' o.status where
  answered h := absurd h hfailed
  column h := absurd h hfailed
  others h := absurd h hfailed
  failed _ := congrArg Database.contractStorage hstorage

/-- **A success keeps to direct storage** exactly when the function returned or nothing is lost with
its accesses. -/
theorem journalRefines_of_success
    (ht : stx.transaction.txType = .contractDeploy ∨ stx.transaction.txType = .contractCall)
    (hrun : executeType P W cfg ord block stx
      (prepay stx.transaction (accountOf l.accounts stx.sender)).val (entered l stx) =
        some ((x, o), l1)) (hsuccess : o.status = .success) (hl : l'.storage = l1.storage) :
    JournalRefines P W cfg block stx l l' o.status ↔ Returns P W cfg block stx l ∨
      (directly l.storage (storageAccesses P W cfg block stx l)).contractStorage =
        l.storage.contractStorage := by
  obtain ⟨entry, contract, r, s, hentry, hcompletes, hvm, hcontract, hcolumn⟩ :=
    exists_run_of_success ht hrun hsuccess
  obtain ⟨hanswered, hown, hreturned, hmissing⟩ := Entry.flushed_of_completes rfl hcompletes hvm
  have haccesses : storageAccesses P W cfg block stx l =
      entry.storageAccesses P W cfg (vmStart W block stx contract l) := by
    unfold storageAccesses
    rw [hentry]
  rw [← haccesses] at hanswered hown hreturned
  rw [storageFlushed_eq_written, ← hl] at hcolumn
  have hlost : ¬ Returns P W cfg block stx l →
      l'.storage.contractStorage = l.storage.contractStorage := by
    intro hnot
    rw [hcolumn, hmissing fun h => hnot ((returns_iff_entry hentry).mpr h)]
    rfl
  constructor
  · intro hrefines
    by_cases hret : Returns P W cfg block stx l
    · exact .inl hret
    · exact .inr ((hrefines.column hsuccess).symm.trans (hlost hret))
  · intro hcond
    have hdirect : l'.storage.contractStorage =
        (directly l.storage (storageAccesses P W cfg block stx l)).contractStorage := by
      by_cases hret : Returns P W cfg block stx l
      · exact hcolumn.trans (hreturned ((returns_iff_entry hentry).mp hret))
      · exact (hlost hret).trans (hcond.resolve_left hret).symm
    refine ⟨fun _ => hanswered, fun _ => hdirect, fun _ addr key hne => ?_,
      fun h => absurd hsuccess h⟩
    rw [hdirect]
    exact lookup_directly_of_ne key _ fun a ha he =>
      hne (he.symm.trans ((hown a ha).trans hcontract))

theorem journalRefines_of_executeTx {i : ℕ}
    (ht : stx.transaction.txType = .contractDeploy ∨ stx.transaction.txType = .contractCall)
    (h : executeTx P W cfg ord block i stx l = some ((), l'))
    (ho : l'.receipts = l.receipts ++ [receiptOf P block i stx o]) :
    JournalRefines P W cfg block stx l l' o.status ↔
      (o.status = .success → Returns P W cfg block stx l ∨
        (directly l.storage (storageAccesses P W cfg block stx l)).contractStorage =
          l.storage.contractStorage) := by
  have hfailed : o.status ≠ .success → l'.storage = l.storage →
      (JournalRefines P W cfg block stx l l' o.status ↔
        (o.status = .success → Returns P W cfg block stx l ∨
          (directly l.storage (storageAccesses P W cfg block stx l)).contractStorage =
            l.storage.contractStorage)) := fun hne hstorage =>
    iff_of_true (journalRefines_of_failed hne hstorage) fun h => absurd h hne
  by_cases hp : Passes l stx
  · obtain ⟨x, l1, hrun, rfl⟩ := executeTx_outcome hp h ho
    by_cases hsuccess : o.status = .success
    · have hl : (finished l1 stx.sender x o.gasUsed (receiptOf P block i stx o)).storage =
          l1.storage := rfl
      exact (journalRefines_of_success ht hrun hsuccess hl).trans
        ⟨fun hcond _ => hcond, fun hcond => hcond hsuccess⟩
    · exact hfailed hsuccess (unapplied_of_not_success ht hrun hsuccess).storage
  · obtain ⟨msg, ov, hskip⟩ := executeTx_skip P W cfg ord block i hp
    cases h.symm.trans hskip
    obtain rfl := receiptOf_injective (List.singleton_inj.mp (List.append_cancel_left ho))
    exact hfailed nofun rfl

end

end Exec

/-- **The storage journal and direct storage.** Any reads, writes and deletions through the context
of a new execution, and a flush in any order, are as the same accesses to the database itself. At
the turn of a contract transaction of an applied block, contract storage is left as the accesses of
its execution leave it, or as it was if the transaction does not succeed, exactly if a success comes
from a function that returned, or from accesses with nothing to lose. -/
theorem journalRefines_iff {P : Primitives} {W : Wasmtime} {cfg : VmConfig} {ord : ℕ → HashOrders}
    {cache : HashMap Blake3Hash W.Module} {s : ChainState Database} {block : Block}
    {a : Applied W.Module Database} {rs : List TransactionReceipt}
    (h : applyBlock P W cfg ord cache s block = some a) (hok : a.result = .ok rs) {i : ℕ}
    {stx : SignedTransaction} (hi : block.transactions[i]? = some stx)
    (ht : stx.transaction.txType = .contractDeploy ∨ stx.transaction.txType = .contractCall) :
    (∀ (vm vm' : VmState W.Module Database) (as : List StorageAccess),
      vm.context.storageChanges = ∅ → Performs vm as vm' → RefinesDirect vm vm' as) ∧
    ∃ l l' r, Exec.AtTurn P W cfg ord block (s.toLoop cache) i stx l l' ∧ rs[i]? = some r ∧
      (Exec.JournalRefines P W cfg block stx l l' r.status ↔
        (r.status = .success → Exec.Returns P W cfg block stx l ∨
          (directly l.storage (Exec.storageAccesses P W cfg block stx l)).contractStorage =
            l.storage.contractStorage)) := by
  obtain ⟨l, l', o, hturn, hreceipts, hr⟩ := exists_turn_of_applied h hok hi
  exact ⟨fun _ _ _ => refinesDirect_of_performs, l, l', _, hturn, hr,
    Exec.journalRefines_of_executeTx ht hturn.step hreceipts⟩

/-! ### A deployment with a constructor, and one without -/

namespace Small

def storingTx : SignedTransaction :=
  .new .small ⟨1, 0, (KeyPair.small 2).address .small, none, 0, .contractDeploy, 10000, 1, [0], 0⟩
    (KeyPair.small 2)

def storingBlock : Block := next genesisBlock [storingTx]

def writingStart : Guest Unit :=
  .call (.storageWrite 0 1 0 1) (some ⟨65536, fun _ => 0⟩) fun _ _ => .done ()

def stored : StorageAccess := .write (deployAddress .small storingTx.sender 1) [0] [0]

def applyStoring (W : Wasmtime) : Option (Applied W.Module Database) :=
  applyBlock .small W .default (fun _ => .listed) ∅ start storingBlock

theorem returns_storing :
    Exec.Returns .small (.only returning) .default storingBlock storingTx (start.toLoop ∅) := by
  let vm := Exec.vmStart (.only returning) storingBlock storingTx Address.zero (start.toLoop ∅)
  let s1 := deploying .small
    { vm with moduleCache := (∅ : HashMap Blake3Hash Unit).insert (Primitives.small.blake3 [0]) () }
  have hcheck : ((invoke (.only returning) .default () "init" []).run s1).map
      (fun p => p.1.toBool) = some true := by decide +kernel
  obtain ⟨⟨r, s2⟩, hrun, hr⟩ := Option.map_eq_some_iff.mp hcheck
  cases r with
  | error e => cases hr
  | ok data => exact ⟨_, _, rfl, (), "init", [], s1, data, s2, rfl, hrun⟩

end Small

/-- A constructor that writes and returns: the write is in the database. -/
theorem journalRefines_storing : ∃ a rs l' r, Small.applyStoring (.only returning) = some a ∧
    a.result = .ok rs ∧ rs[0]? = some r ∧
    Exec.AtTurn .small (.only returning) .default (fun _ => .listed) Small.storingBlock
      (Small.start.toLoop ∅) 0 Small.storingTx (Small.start.toLoop ∅) l' ∧
    Exec.storageAccesses .small (.only returning) .default Small.storingBlock Small.storingTx
      (Small.start.toLoop ∅) = [Small.stored] ∧
    Exec.JournalRefines .small (.only returning) .default Small.storingBlock Small.storingTx
      (Small.start.toLoop ∅) l' r.status := by
  obtain ⟨a, rs, ha, hok, -⟩ := Small.exists_ok (x := Small.applyStoring (.only returning))
    (p := fun _ _ => true) (by decide +kernel)
  obtain ⟨-, l, l', r, hturn, hr, hiff⟩ := journalRefines_iff ha hok
    (show Small.storingBlock.transactions[0]? = some Small.storingTx from rfl) (.inl rfl)
  obtain ⟨-, rfl⟩ := pure_eq_some hturn.before
  exact ⟨a, rs, l', r, ha, hok, hr, hturn, by decide +kernel,
    hiff.mpr fun _ => .inl Small.returns_storing⟩

/-- **A start function that writes, in a module without constructor**: the deployment succeeds, and
the write is lost. -/
theorem not_journalRefines_starting : Started .small Small.genesis Small.start ∧
    ∃ a rs l' r, Small.applyStoring (.starting Small.writingStart) = some a ∧ a.result = .ok rs ∧
      rs[0]? = some r ∧
      Exec.AtTurn .small (.starting Small.writingStart) .default (fun _ => .listed)
        Small.storingBlock (Small.start.toLoop ∅) 0 Small.storingTx (Small.start.toLoop ∅) l' ∧
      r.status = .success ∧
      Exec.storageAccesses .small (.starting Small.writingStart) .default Small.storingBlock
        Small.storingTx (Small.start.toLoop ∅) = [Small.stored] ∧
      l'.storage.contractStorage.lookup
        (contractStorageKey (deployAddress .small Small.storingTx.sender 1) [0]) = none ∧
      ¬ Exec.JournalRefines .small (.starting Small.writingStart) .default Small.storingBlock
        Small.storingTx (Small.start.toLoop ∅) l' r.status := by
  obtain ⟨a, rs, ha, hok, hcheck⟩ := Small.exists_ok
    (x := Small.applyStoring (.starting Small.writingStart))
    (p := fun _ rs => decide (rs.map (·.status) = [.success])) (by decide +kernel)
  obtain ⟨r, rfl, hsuccess⟩ := List.map_eq_singleton_iff.mp (of_decide_eq_true hcheck)
  obtain ⟨l, l', o, hturn, -, -⟩ := exists_turn_of_applied ha hok
    (show Small.storingBlock.transactions[0]? = some Small.storingTx from rfl)
  obtain ⟨-, rfl⟩ := pure_eq_some hturn.before
  have hlost : l'.storage.contractStorage.lookup
      (contractStorageKey (deployAddress .small Small.storingTx.sender 1) [0]) = none := by
    have heval : (Exec.executeTx .small (.starting Small.writingStart) .default .listed
        Small.storingBlock 0 Small.storingTx (Small.start.toLoop ∅)).map (fun p =>
          p.2.storage.contractStorage.lookup
            (contractStorageKey (deployAddress .small Small.storingTx.sender 1) [0])) =
        some none := by decide +kernel
    rw [hturn.step] at heval
    exact Option.some.inj heval
  have haccesses : Exec.storageAccesses .small (.starting Small.writingStart) .default
      Small.storingBlock Small.storingTx (Small.start.toLoop ∅) = [Small.stored] := by
    decide +kernel
  refine ⟨Small.started, a, [r], l', r, ha, hok, rfl, hturn, hsuccess, haccesses, hlost, ?_⟩
  intro hrefines
  have hcolumn := hrefines.column hsuccess
  rw [haccesses] at hcolumn
  rw [hcolumn] at hlost
  cases (Finmap.lookup_insert _).symm.trans hlost

end Rustchain.Consensus
