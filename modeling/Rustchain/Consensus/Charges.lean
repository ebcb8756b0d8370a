import Rustchain.Consensus.Block

/-! # What transactions are charged

Every transaction of a block leaves a receipt with the gas that it used. Transfers and staking use
the base gas whatever they do, and so does a call of an address without code; a contract transaction
that the VM refuses uses all of its gas limit. The meter of the VM counts calls of the host only, so
that a contract can run and use nothing. -/

namespace Rustchain.Consensus

open Rustchain.Core Storage Vm Lib.Machine Lib.Maps Lib.Partial

namespace Exec

section
variable (P : Primitives) (W : Wasmtime) (cfg : VmConfig)

/-- A contract transaction that the VM runs without a charge. -/
inductive UnchargedRun (block : Block) (stx : SignedTransaction) (l : Loop W.Module Database) : Prop
  | deployed {r : DeployResult} {s : VmState W.Module Database}
      (ht : stx.transaction.txType = .contractDeploy)
      (hvm : deployContract P W cfg stx.transaction.data [] (vmStart W block stx Address.zero l) =
        some (.ok r, s)) (hgas : r.gasUsed = 0)
  | called {codeHash : Blake3Hash} {r : CallResult} {s : VmState W.Module Database}
      (ht : stx.transaction.txType = .contractCall)
      (hcode : (accountOf l.accounts (stx.transaction.toAddr.getD Address.zero)).codeHash =
        some codeHash)
      (hvm : callContract P W cfg codeHash (extractFunctionName stx.transaction.data).1
        (extractFunctionName stx.transaction.data).2
        (vmStart W block stx (stx.transaction.toAddr.getD Address.zero) l) = some (.ok r, s))
      (hgas : r.gasUsed = 0)

/-- **A transaction that is charged nothing**: if it passes the checks of the loop, it is a contract
transaction that the VM runs without a charge. -/
def Uncharged (block : Block) (stx : SignedTransaction) (l : Loop W.Module Database) : Prop :=
  Passes l stx → UnchargedRun P W cfg block stx l

/-- Every transaction from index `i` on is charged nothing at its turn. -/
def AllUncharged (ord : ℕ → HashOrders) (block : Block) :
    ℕ → List SignedTransaction → Loop W.Module Database → Prop
  | _, [], _ => True
  | i, stx :: txs, l => Uncharged P W cfg block stx l ∧
      ∀ l', executeTx P W cfg (ord i) block i stx l = some ((), l') →
        AllUncharged ord block (i + 1) txs l'

end

section
variable {M : Type} {stx : SignedTransaction} {x x' : Account} {o : Outcome}
  {l l' : Loop M Database}

theorem executeTransfer_gas {tx : Transaction}
    (h : executeTransfer tx x l = some ((x', o), l')) : o.gasUsed = baseGas := by
  rw [(executeTransfer_run h).1]

theorem executeStake_gas (h : executeStake stx x l = some ((x', o), l')) : o.gasUsed = baseGas := by
  rw [(executeStake_run h).1]

theorem executeUnstake_gas (h : executeUnstake stx x l = some ((x', o), l')) :
    o.gasUsed = baseGas := by
  cases unstakeRun_of_eq_some h with
  | refused => rfl
  | done => rfl

end

section
variable {P : Primitives} {W : Wasmtime} {cfg : VmConfig} {ord : HashOrders} {block : Block}

variable {l l' : Loop W.Module Database} {o : Outcome} {x x' : Account}

theorem executeDeploy_gas {tx : Transaction} {sender : Address}
    (h : executeDeploy P W cfg ord block tx sender x l = some ((x', o), l')) :
    ∃ res s, deployContract P W cfg tx.data []
        ⟨contextFor block tx sender Address.zero, l.storage, l.moduleCache, l.overflow⟩ =
          some (res, s) ∧
      o.gasUsed = match res with
        | .ok r => r.gasUsed
        | .error _ => tx.gasLimit := by
  cases deployRun_of_eq_some P W cfg ord h with
  | refused hvm => exact ⟨_, _, hvm, rfl⟩
  | done hvm _ _ => exact ⟨_, _, hvm, rfl⟩

theorem executeCall_gas {tx : Transaction} {sender : Address}
    (h : executeCall P W cfg ord block tx sender x l = some ((x', o), l')) :
    ((accountOf l.accounts (tx.toAddr.getD Address.zero)).codeHash = none ∧ o.gasUsed = 21000) ∨
      ∃ codeHash res s,
        (accountOf l.accounts (tx.toAddr.getD Address.zero)).codeHash = some codeHash ∧
        callContract P W cfg codeHash (extractFunctionName tx.data).1
          (extractFunctionName tx.data).2
          ⟨contextFor block tx sender (tx.toAddr.getD Address.zero), l.storage, l.moduleCache,
            l.overflow⟩ = some (res, s) ∧
        o.gasUsed = match res with
          | .ok r => r.gasUsed
          | .error _ => tx.gasLimit := by
  rw [codeHash_accountOf]
  cases callRun_of_eq_some P W cfg ord h with
  | noCode hcode => exact .inl ⟨hcode, rfl⟩
  | refused hcode hvm => exact .inr ⟨_, _, _, hcode, hvm, rfl⟩
  | failed hcode hvm _ _ => exact .inr ⟨_, _, _, hcode, hvm, rfl⟩
  | done hcode hvm _ _ _ => exact .inr ⟨_, _, _, hcode, hvm, rfl⟩

variable {stx : SignedTransaction}

theorem executeDeploy_uncharged (ht : stx.transaction.txType = .contractDeploy)
    (h : executeDeploy P W cfg ord block stx.transaction stx.sender x (entered l stx) =
      some ((x', o), l'))
    (hlimit : stx.transaction.gasLimit ≠ 0) : o.gasUsed = 0 ↔ UnchargedRun P W cfg block stx l := by
  obtain ⟨res, s, hvm, hgas⟩ := executeDeploy_gas h
  constructor
  · intro h0
    cases res with
    | ok r => exact .deployed ht hvm (hgas.symm.trans h0)
    | error e => exact absurd (hgas.symm.trans h0) hlimit
  · rintro (⟨-, hvm', h0⟩ | ⟨ht', -, -, -⟩)
    · rw [vmStart, hvm] at hvm'
      obtain ⟨rfl, -⟩ := some_pair_inj hvm'
      rw [hgas]
      exact h0
    · cases ht.symm.trans ht'

theorem executeCall_uncharged (ht : stx.transaction.txType = .contractCall)
    (h : executeCall P W cfg ord block stx.transaction stx.sender x (entered l stx) =
      some ((x', o), l'))
    (hlimit : stx.transaction.gasLimit ≠ 0) : o.gasUsed = 0 ↔ UnchargedRun P W cfg block stx l := by
  rcases executeCall_gas h with ⟨hno, hgas⟩ | ⟨codeHash, res, s, hcode, hvm, hgas⟩
  · constructor
    · intro h0
      cases hgas.symm.trans h0
    · rintro (⟨ht', -, -⟩ | ⟨-, hcode, -, -⟩)
      · cases ht.symm.trans ht'
      · cases hno.symm.trans hcode
  · constructor
    · intro h0
      cases res with
      | ok r => exact .called ht hcode hvm (hgas.symm.trans h0)
      | error e => exact absurd (hgas.symm.trans h0) hlimit
    · rintro (⟨ht', -, -⟩ | ⟨-, hcode', hvm', h0⟩)
      · cases ht.symm.trans ht'
      · obtain rfl := Option.some.inj (hcode.symm.trans hcode')
        rw [vmStart, hvm] at hvm'
        obtain ⟨rfl, -⟩ := some_pair_inj hvm'
        rw [hgas]
        exact h0

/-- **The branch of a transaction type** charges nothing if and only if it runs a contract without a
charge. -/
theorem executeType_uncharged
    (h : executeType P W cfg ord block stx x (entered l stx) = some ((x', o), l'))
    (hlimit : stx.transaction.gasLimit ≠ 0) : o.gasUsed = 0 ↔ UnchargedRun P W cfg block stx l := by
  unfold executeType at h
  -- the other types use the base gas
  have hnative : o.gasUsed = baseGas → stx.transaction.txType ≠ .contractDeploy →
      stx.transaction.txType ≠ .contractCall →
      (o.gasUsed = 0 ↔ UnchargedRun P W cfg block stx l) := by
    intro hbase hdeploy hcall
    constructor
    · intro h0
      rw [hbase] at h0
      cases h0
    · rintro (⟨ht, -, -⟩ | ⟨ht, -, -, -⟩)
      · exact absurd ht hdeploy
      · exact absurd ht hcall
  cases ht : stx.transaction.txType with
  | transfer =>
    rw [ht] at h hnative
    exact hnative (executeTransfer_gas h) (by decide) (by decide)
  | stake =>
    rw [ht] at h hnative
    exact hnative (executeStake_gas h) (by decide) (by decide)
  | unstake =>
    rw [ht] at h hnative
    exact hnative (executeUnstake_gas h) (by decide) (by decide)
  | contractDeploy =>
    rw [ht] at h
    exact executeDeploy_uncharged ht h hlimit
  | contractCall =>
    rw [ht] at h
    exact executeCall_uncharged ht h hlimit

theorem executeTx_uncharged {i : ℕ} (h : executeTx P W cfg ord block i stx l = some ((), l'))
    (hlimit : stx.transaction.gasLimit ≠ 0) :
    ∃ r, l'.receipts = l.receipts ++ [r] ∧ (r.gasUsed = 0 ↔ Uncharged P W cfg block stx l) := by
  by_cases hp : Passes l stx
  · obtain ⟨x, o, l1, ht, rfl⟩ := executeTx_run P W cfg ord hp h
    have hb := (executeType_branch P W cfg ord ht).1
    refine ⟨receiptOf P block i stx o, ?_, ?_⟩
    · show l1.receipts ++ _ = _
      rw [hb.receipts]
      rfl
    · exact (executeType_uncharged ht hlimit).trans ⟨fun hrun _ => hrun, fun hrun => hrun hp⟩
  · obtain ⟨msg, ov, hs⟩ := executeTx_skip P W cfg ord block i hp
    rw [hs] at h
    obtain ⟨-, rfl⟩ := some_pair_inj h
    exact ⟨_, rfl, ⟨fun _ hpass => absurd hpass hp, fun _ => rfl⟩⟩

/-- **The loop** leaves receipts without gas if and only if every transaction is charged nothing at
its turn. -/
theorem executeTxs_uncharged {ord : ℕ → HashOrders} :
    ∀ {txs : List SignedTransaction} {i : ℕ} {l l' : Loop W.Module Database},
      executeTxs P W cfg ord block i txs l = some ((), l') →
      (∀ stx ∈ txs, stx.transaction.gasLimit ≠ 0) →
      ∃ rs, l'.receipts = l.receipts ++ rs ∧
        ((∀ r ∈ rs, r.gasUsed = 0) ↔ AllUncharged P W cfg ord block i txs l)
  | [], i, l, l', h, _ => by
    obtain ⟨-, rfl⟩ := pure_eq_some h
    exact ⟨[], (List.append_nil _).symm, ⟨fun _ => trivial, fun _ r hr => (nomatch hr)⟩⟩
  | stx :: txs, i, l, l', h, hlimit => by
    unfold executeTxs at h
    obtain ⟨_, l1, h1, h2⟩ := bind_eq_some.mp h
    obtain ⟨r, hr, hfree⟩ := executeTx_uncharged h1 (hlimit stx (by simp))
    obtain ⟨rs, hrs, hall⟩ := executeTxs_uncharged h2 fun t ht => hlimit t (by simp [ht])
    refine ⟨r :: rs, by rw [hrs, hr, List.append_assoc]; rfl, ?_⟩
    rw [List.forall_mem_cons, hfree, hall]
    refine and_congr_right fun _ => ⟨fun hrest l2 hl2 => ?_, fun hrest => hrest l1 h1⟩
    rw [h1] at hl2
    obtain ⟨-, rfl⟩ := some_pair_inj hl2
    exact hrest

end

end Exec

end Rustchain.Consensus
