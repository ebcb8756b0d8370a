import Rustchain.Consensus.Ledger

/-! # Blocks on a database without faults

From one transaction to the whole of `apply_block`: what a transaction does to the accounts, what
the loop does to them, and that the commit writes exactly the table the loop worked on. The last
part are the runs of a node. -/

namespace Rustchain.Consensus

open Rustchain.Core Storage Vm Lib.Machine Lib.Maps Lib.Partial

/-- Every account stands under its own address. -/
def Keyed (t : Table Address Account) : Prop := ∀ a, (accountOf t a).address = a

namespace Exec

variable {P : Primitives} {W : Wasmtime} {cfg : VmConfig}

/-! ### One transaction -/

/-- The nonce of the sender after a transaction: it counts the transactions that passed. -/
def nonceAfter {M : Type} (l : Loop M Database) (stx : SignedTransaction) : ℕ :=
  if Passes l stx then ((accountOf l.accounts stx.sender).nonce + 1) % 2 ^ 64
  else (accountOf l.accounts stx.sender).nonce

/-- **What a transaction does**: the sender gets a balance and a nonce, any other account at most a
balance, and at most one address gets a new contract account. -/
structure TxEffect (P : Primitives) (block : Block) (stx : SignedTransaction) {M : Type}
    (l l' : Loop M Database) : Prop where
  chain : SameChain l.storage l'.storage
  overflow : l'.overflow = false → l.overflow = false
  jailFree : JailFree l.validatorSet → JailFree l'.validatorSet
  sender : ∃ b, accountOf l'.accounts stx.sender =
    { accountOf l.accounts stx.sender with balance := b, nonce := nonceAfter l stx }
  others : ∀ a, a ≠ stx.sender →
    (∃ b, accountOf l'.accounts a = { accountOf l.accounts a with balance := b }) ∨
      DeployedAt P block stx a ∧ ∃ b h, accountOf l'.accounts a = Account.newContract a b h

variable {block : Block} {l l' : Loop W.Module Database} {stx : SignedTransaction}

theorem executeTx_effect {ord : HashOrders} {i : ℕ}
    (h : executeTx P W cfg ord block i stx l = some ((), l')) :
    TxEffect P block stx l l' := by
  by_cases hp : Passes l stx
  · obtain ⟨x, o, l1, ht, rfl⟩ := executeTx_run P W cfg ord hp h
    obtain ⟨hb, b, rfl⟩ := executeType_branch P W cfg ord ht
    refine ⟨hb.chain, fun hf => ?_, hb.jailFree, ⟨b, ?_⟩, fun a ha => ?_⟩
    · have h1 := hb.overflow (Bool.or_eq_false_iff.mp hf).1
      exact (Bool.or_eq_false_iff.mp (Bool.or_eq_false_iff.mp h1).1).1
    · rw [accounts_finished, accountOf_insert_self, nonceAfter, if_pos hp]
      rfl
    · rw [accounts_finished, accountOf_insert_ne _ _ ha]
      exact hb.accounts a
  · obtain ⟨msg, ov, hs⟩ := executeTx_skip P W cfg ord block i hp
    rw [hs] at h
    obtain ⟨-, rfl⟩ := some_pair_inj h
    refine ⟨rfl, fun hf => (Bool.or_eq_false_iff.mp hf).1, id,
      ⟨(accountOf l.accounts stx.sender).balance, ?_⟩, fun a _ => .inl ⟨_, rfl⟩⟩
    rw [nonceAfter, if_neg hp]
    rfl

theorem executeTx_receipt {ord : HashOrders} {i : ℕ}
    (h : executeTx P W cfg ord block i stx l = some ((), l')) :
    ∃ o, l'.receipts = l.receipts ++ [receiptOf P block i stx o] := by
  by_cases hp : Passes l stx
  · obtain ⟨x, o, l1, ht, rfl⟩ := executeTx_run P W cfg ord hp h
    have hb := (executeType_branch P W cfg ord ht).1
    refine ⟨o, ?_⟩
    show l1.receipts ++ _ = _
    rw [hb.receipts]
    rfl
  · obtain ⟨msg, ov, hs⟩ := executeTx_skip P W cfg ord block i hp
    rw [hs] at h
    obtain ⟨-, rfl⟩ := some_pair_inj h
    exact ⟨_, rfl⟩

theorem TxEffect.keyed {M : Type} {l l' : Loop M Database} (h : TxEffect P block stx l l')
    (hk : Keyed l.accounts) :
    Keyed l'.accounts := by
  intro a
  by_cases ha : a = stx.sender
  · obtain ⟨b, hb⟩ := h.sender
    rw [ha, hb]
    exact hk _
  · rcases h.others a ha with ⟨b, hb⟩ | ⟨-, b, c, hb⟩
    · rw [hb]; exact hk a
    · rw [hb]; rfl

/-! ### The loop -/

variable {ord : ℕ → HashOrders}

theorem keeps_executeTxs {R : Loop W.Module Database → Loop W.Module Database → Prop}
    (hrefl : ∀ l, R l l) (htrans : ∀ l m n, R l m → R m n → R l n) :
    ∀ {txs : List SignedTransaction} {i : ℕ},
    (∀ stx ∈ txs, ∀ i, Keeps R (executeTx P W cfg (ord i) block i stx)) →
      Keeps R (executeTxs P W cfg ord block i txs)
  | [], _, _ => Keeps.pure hrefl _
  | stx :: txs, i, h => by
    unfold executeTxs
    exact Keeps.bind htrans (h stx (by simp) i) fun _ =>
      keeps_executeTxs hrefl htrans fun t ht => h t (by simp [ht])

theorem executeTxs_append (u : List SignedTransaction) :
    ∀ (t : List SignedTransaction) (i : ℕ) (l : Loop W.Module Database),
      executeTxs P W cfg ord block i (t ++ u) l =
        (executeTxs P W cfg ord block i t >>= fun _ =>
          executeTxs P W cfg ord block (i + t.length) u) l
  | [], _, _ => rfl
  | stx :: t, i, l => by
    show (executeTx P W cfg (ord i) block i stx >>= fun _ =>
        executeTxs P W cfg ord block (i + 1) (t ++ u)) l =
      ((executeTx P W cfg (ord i) block i stx >>= fun _ =>
        executeTxs P W cfg ord block (i + 1) t) >>= fun _ => _) l
    rw [bind_assoc, bind_apply, bind_apply]
    congr 1
    funext r
    rw [executeTxs_append u t (i + 1), List.length_cons, Nat.add_right_comm, Nat.add_assoc]

/-- What the loop does besides moving balances and nonces. -/
structure LoopEffect {M : Type} (l l' : Loop M Database) : Prop where
  chain : SameChain l.storage l'.storage
  overflow : l'.overflow = false → l.overflow = false
  jailFree : JailFree l.validatorSet → JailFree l'.validatorSet
  keyed : Keyed l.accounts → Keyed l'.accounts

theorem LoopEffect.refl {M : Type} (l : Loop M Database) : LoopEffect l l := ⟨rfl, id, id, id⟩

theorem LoopEffect.trans {M : Type} {l m n : Loop M Database} (h1 : LoopEffect l m)
    (h2 : LoopEffect m n) : LoopEffect l n :=
  ⟨h1.chain.trans h2.chain, fun h => h1.overflow (h2.overflow h),
    fun h => h2.jailFree (h1.jailFree h), fun h => h2.keyed (h1.keyed h)⟩

theorem TxEffect.loopEffect {M : Type} {l l' : Loop M Database} (h : TxEffect P block stx l l') :
    LoopEffect l l' :=
  ⟨h.chain, h.overflow, h.jailFree, h.keyed⟩

theorem executeTxs_effect {txs : List SignedTransaction} {i : ℕ}
    (h : executeTxs P W cfg ord block i txs l = some ((), l')) : LoopEffect l l' :=
  keeps_executeTxs LoopEffect.refl (fun _ _ _ => LoopEffect.trans)
    (fun _ _ _ _ _ _ ht => (executeTx_effect ht).loopEffect) _ _ _ h

theorem executeTxs_receipts :
    ∀ {txs : List SignedTransaction} {i : ℕ} {l l' : Loop W.Module Database},
      executeTxs P W cfg ord block i txs l = some ((), l') →
        l'.receipts.map (·.txHash) = l.receipts.map (·.txHash) ++ txs.map (·.hash)
  | [], i, l, l', h => by
    obtain ⟨-, rfl⟩ := pure_eq_some h
    simp
  | stx :: txs, i, l, l', h => by
    unfold executeTxs at h
    obtain ⟨_, l1, h1, h2⟩ := bind_eq_some.mp h
    obtain ⟨o, ho⟩ := executeTx_receipt h1
    rw [executeTxs_receipts h2, ho]
    simp [receiptOf]

/-- The transactions that pass both checks at their turn, in order. -/
def executed (P : Primitives) (W : Wasmtime) (cfg : VmConfig) (ord : ℕ → HashOrders)
    (block : Block) : ℕ → List SignedTransaction → Loop W.Module Database → List SignedTransaction
  | _, [], _ => []
  | i, stx :: txs, l =>
    (if Passes l stx then [stx] else []) ++
      match executeTx P W cfg (ord i) block i stx l with
      | none => []
      | some (_, l') => executed P W cfg ord block (i + 1) txs l'

end Exec

/-! ### The commit -/

theorem Keyed.of_overlay {M : Type} {l : Loop M Database} (h : Keyed l.accounts) {a : Address}
    {x : Account} (hx : l.modifiedAccounts.lookup a = some x) : x.address = a := by
  have hl : l.accounts.lookup a = some x := by
    unfold Loop.accounts
    rw [lookup_union]
    have : l.modifiedAccounts.toFinmap.lookup a = some x := hx
    rw [this]
    rfl
  have := h a
  unfold accountOf at this
  rwa [hl] at this

theorem accounts_commitBlock {P : Primitives} {M : Type} {l : Loop M Database}
    (h : Keyed l.accounts) (order : IterOrder (Sigma fun _ : Address => Account)) (block : Block) :
    (l.storage.commitBlock P block l.receipts
      (overlayAccounts order l.modifiedAccounts)).accounts = l.accounts := by
  show ((order.visit l.modifiedAccounts.entries).map (·.2)).foldl
    (fun m x => m.insert x.address x) l.storage.accounts =
      l.modifiedAccounts.toFinmap ∪ l.storage.accounts
  rw [List.foldl_map, ← foldl_insert_visit order l.modifiedAccounts]
  refine List.foldl_ext _ _ _ fun m e he => ?_
  have hmem : e ∈ l.modifiedAccounts.entries := (order.perm _).mem_iff.mp he
  rw [h.of_overlay (AList.mem_lookup_iff.mpr hmem)]

/-- The chain state that an applied block leaves. -/
def committed (P : Primitives) {M : Type} (ord : HashOrders) (s : ChainState Database)
    (block : Block) (l : Loop M Database) : ChainState Database where
  head := block
  height := block.header.number
  currentEpoch := { s.currentEpoch with validatorSet := l.validatorSet }
  storage := l.storage.commitBlock P block l.receipts
    (overlayAccounts ord.accounts l.modifiedAccounts)

/-- The block extends the head of the chain. -/
def Extends (P : Primitives) (s : ChainState Database) (block : Block) : Prop :=
  block.header.parentHash = s.head.hash P ∧ block.header.number = (addU 64 s.height 1).val

section
variable {P : Primitives} {W : Wasmtime} {cfg : VmConfig} {ord : ℕ → HashOrders}
variable {cache : HashMap Blake3Hash W.Module} {s : ChainState Database} {block : Block}

theorem applyBlock_of_extends (h : Extends P s block) :
    applyBlock P W cfg ord cache s block =
      (Exec.executeTxs P W cfg ord block 0 block.transactions (s.toLoop cache)).map fun r =>
        ⟨.ok r.2.receipts, committed P (ord block.transactions.length) s block r.2,
          r.2.moduleCache, r.2.overflow⟩ := by
  unfold applyBlock
  dsimp only
  rw [if_neg (not_not.mpr h.1), if_neg (not_not.mpr h.2)]
  rfl

theorem applyBlock_of_not_extends (h : ¬ Extends P s block) :
    ∃ e ov, applyBlock P W cfg ord cache s block = some ⟨.error e, s, cache, ov⟩ := by
  unfold applyBlock
  dsimp only
  split_ifs with hp hn
  · exact ⟨_, _, rfl⟩
  · exact ⟨_, _, rfl⟩
  · exact absurd ⟨not_not.mp hp, not_not.mp hn⟩ h

theorem applyBlock_error {a : Applied W.Module Database} {e : ConsensusError}
    (h : applyBlock P W cfg ord cache s block = some a) (herr : a.result = .error e) :
    ¬ Extends P s block ∧ a.state = s ∧ a.cache = cache := by
  by_cases hext : Extends P s block
  · rw [applyBlock_of_extends hext] at h
    obtain ⟨⟨_, l⟩, -, rfl⟩ := Option.map_eq_some_iff.mp h
    cases herr
  · obtain ⟨e', ov, he⟩ := applyBlock_of_not_extends hext (W := W)
    rw [he] at h
    obtain rfl := Option.some.inj h
    exact ⟨hext, rfl, rfl⟩

theorem applyBlock_ok {a : Applied W.Module Database} {rs : List TransactionReceipt}
    (h : applyBlock P W cfg ord cache s block = some a) (hok : a.result = .ok rs) :
    block.header.parentHash = s.head.hash P ∧ block.header.number = (addU 64 s.height 1).val ∧
    ∃ l, Exec.executeTxs P W cfg ord block 0 block.transactions (s.toLoop cache) = some ((), l) ∧
      a = ⟨.ok l.receipts, committed P (ord block.transactions.length) s block l,
        l.moduleCache, l.overflow⟩ := by
  by_cases hext : Extends P s block
  · rw [applyBlock_of_extends hext] at h
    obtain ⟨⟨_, l⟩, hl, rfl⟩ := Option.map_eq_some_iff.mp h
    exact ⟨hext.1, hext.2, l, hl, rfl⟩
  · obtain ⟨e, ov, he⟩ := applyBlock_of_not_extends hext (W := W)
    rw [he] at h
    obtain rfl := Option.some.inj h
    cases hok

end

theorem applyBlock_keyed {P : Primitives} {W : Wasmtime} {cfg : VmConfig} {ord : ℕ → HashOrders}
    {cache : HashMap Blake3Hash W.Module} {s : ChainState Database} {block : Block}
    {a : Applied W.Module Database} {rs : List TransactionReceipt}
    (h : applyBlock P W cfg ord cache s block = some a) (hok : a.result = .ok rs)
    (hk : Keyed s.storage.accounts) : Keyed a.state.storage.accounts := by
  obtain ⟨-, -, l, hl, rfl⟩ := applyBlock_ok h hok
  have hkl : Keyed l.accounts := by
    refine (Exec.executeTxs_effect hl).keyed ?_
    rwa [Loop.accounts_toLoop]
  show Keyed (l.storage.commitBlock P block l.receipts _).accounts
  rw [accounts_commitBlock hkl]
  exact hkl

end Rustchain.Consensus
