import Mathlib.Data.List.Range
import Rustchain.Consensus.Node

/-! # Replay protection

The transactions that a chain executes are recorded next to its state. For every address, those that
it signed carry the nonces 0, 1, 2, … in the order of the chain, and the nonce of its account is
their number. The one write that sets a nonce back is the one that creates a contract account, so
signers must not stand at the address of a contract. -/

namespace Rustchain.Consensus

open Rustchain.Core Storage Vm Lib.Machine Lib.Maps Lib.Partial Lib.Runs

variable {P : Primitives} {W : Wasmtime} {cfg : VmConfig}

def signedBy (a : Address) (h : List SignedTransaction) : List SignedTransaction :=
  h.filter (·.sender = a)

/-- The transactions of an address carry the first `n` nonces, in order. -/
def Counted (a : Address) (h : List SignedTransaction) (n : ℕ) : Prop :=
  (signedBy a h).map (·.transaction.nonce) = List.range n

theorem signedBy_append (a : Address) (h h' : List SignedTransaction) :
    signedBy a (h ++ h') = signedBy a h ++ signedBy a h' :=
  List.filter_append ..

theorem length_signedBy_le_append (a : Address) (h h' : List SignedTransaction) :
    (signedBy a h).length ≤ (signedBy a (h ++ h')).length := by
  rw [signedBy_append, List.length_append]
  exact Nat.le_add_right _ _

variable {h : List SignedTransaction}

theorem Counted.length {a : Address} {n : ℕ} (hc : Counted a h n) : (signedBy a h).length = n := by
  have := congrArg List.length hc
  rwa [List.length_map, List.length_range] at this

theorem counted_zero_of_not_signed {a : Address} (hs : ∀ stx ∈ h, stx.sender ≠ a) :
    Counted a h 0 := by
  have : signedBy a h = [] := List.filter_eq_nil_iff.mpr fun stx hm => by simpa using hs stx hm
  rw [Counted, this]
  rfl

namespace Exec

/-! ### One block -/

theorem counted_executeTx {block : Block} {stx : SignedTransaction} {l l' : Loop W.Module Database}
    {a : Address} {h : List SignedTransaction} (he : TxEffect P block stx l l')
    (hc : Counted a h (accountOf l.accounts a).nonce)
    (hlt : (signedBy a (h ++ if Passes l stx then [stx] else [])).length < 2 ^ 64)
    (hd : DeployedAt P block stx a → stx.sender ≠ a → ∀ t ∈ h, t.sender ≠ a) :
    Counted a (h ++ if Passes l stx then [stx] else []) (accountOf l'.accounts a).nonce := by
  by_cases ha : stx.sender = a
  · obtain ⟨b, hb⟩ := he.sender
    rw [ha] at hb
    rw [hb]
    show Counted a _ (nonceAfter l stx)
    unfold nonceAfter
    split_ifs at hlt ⊢ with hp
    · have hone : signedBy a [stx] = [stx] := by simp [signedBy, ha]
      have hn : stx.transaction.nonce = (accountOf l.accounts a).nonce := by rw [← ha]; exact hp.1
      rw [signedBy_append, hone, List.length_append, hc.length, List.length_singleton] at hlt
      rw [ha, Nat.mod_eq_of_lt hlt, Counted, signedBy_append, hone, List.map_append, hc,
        List.range_succ, List.map_singleton, hn]
    · rwa [List.append_nil, ha]
  · have hother : signedBy a (if Passes l stx then [stx] else []) = [] := by
      split_ifs <;> simp [signedBy, ha]
    have hsame : ∀ n, Counted a (h ++ if Passes l stx then [stx] else []) n ↔ Counted a h n := by
      intro n
      rw [Counted, signedBy_append, hother, List.append_nil, Counted]
    rw [hsame]
    rcases he.others a (Ne.symm ha) with ⟨b, hb⟩ | ⟨hdep, b, c, hb⟩
    · rwa [hb]
    · rw [hb]
      exact counted_zero_of_not_signed (hd hdep ha)

theorem counted_executeTxs {ord : ℕ → HashOrders} {block : Block} {a : Address} :
    ∀ {txs : List SignedTransaction} {i : ℕ} {l l' : Loop W.Module Database}
      {h : List SignedTransaction}, executeTxs P W cfg ord block i txs l = some ((), l') →
      Counted a h (accountOf l.accounts a).nonce →
      (signedBy a (h ++ executed P W cfg ord block i txs l)).length < 2 ^ 64 →
      (∀ stx ∈ txs, DeployedAt P block stx a → ∀ t ∈ h ++ txs, t.sender ≠ a) →
      Counted a (h ++ executed P W cfg ord block i txs l) (accountOf l'.accounts a).nonce
  | [], i, l, l', h, hx, hc, _, _ => by
    obtain ⟨-, rfl⟩ := pure_eq_some hx
    rwa [executed, List.append_nil]
  | stx :: txs, i, l, l', h, hx, hc, hlt, hd => by
    unfold executeTxs at hx
    obtain ⟨_, l1, h1, h2⟩ := bind_eq_some.mp hx
    unfold executed at hlt ⊢
    rw [h1, ← List.append_assoc] at hlt
    rw [h1, ← List.append_assoc]
    have hstep := counted_executeTx (executeTx_effect h1) hc
      (lt_of_le_of_lt (length_signedBy_le_append ..) hlt)
      fun hdep _ t ht => hd stx (by simp) hdep t (by simp [ht])
    refine counted_executeTxs h2 hstep hlt fun t ht hdep u hu => hd t (by simp [ht]) hdep u ?_
    have hmem : u ∈ h ∨ u ∈ (if Passes l stx then [stx] else []) ∨ u ∈ txs := by
      simpa [or_assoc] using hu
    split_ifs at hmem <;> simp at hmem ⊢ <;> tauto

theorem executed_subset {ord : ℕ → HashOrders} {block : Block} :
    ∀ (txs : List SignedTransaction) (i : ℕ) (l : Loop W.Module Database),
      executed P W cfg ord block i txs l ⊆ txs
  | [], _, _ => fun _ h => h
  | stx :: txs, i, l => by
    unfold executed
    refine List.append_subset.mpr ⟨?_, ?_⟩
    · split_ifs <;> simp
    · cases executeTx P W cfg (ord i) block i stx l with
      | none => simp
      | some r =>
        exact List.Subset.trans (executed_subset txs (i + 1) r.2) (List.subset_cons_self ..)

end Exec

/-! ### Runs -/

/-- A step of a node that adds the transactions it executes to the history of the chain. -/
def RecordedStep (P : Primitives) (W : Wasmtime) (cfg : VmConfig) (g : GenesisConfig)
    (r : ChainState Database × List SignedTransaction) (op : ChainOp W)
    (r' : ChainState Database × List SignedTransaction) : Prop :=
  ChainStep P W cfg g r.1 op r'.1 ∧ r'.2 = r.2 ++ executedBy P W cfg r.1 op

/-- No transaction of a block is signed by an address that a deployment of a block derives. -/
def NoContractSigns (P : Primitives) (blocks : List Block) : Prop :=
  ∀ b ∈ blocks, ∀ d ∈ b.transactions, ∀ b' ∈ blocks, ∀ stx ∈ b'.transactions,
    ¬ Exec.DeployedAt P b d stx.sender

theorem NoContractSigns.of_append {blocks blocks' : List Block}
    (h : NoContractSigns P (blocks ++ blocks')) : NoContractSigns P blocks :=
  fun b hb d hd b' hb' => h b (by simp [hb]) d hd b' (by simp [hb'])

/-- What is known of a run: the executed transactions stand in its blocks, and as long as nonces do
not wrap and no contract signs, every nonce counts. -/
structure ReplayInv (P : Primitives) (ops : List (ChainOp W))
    (r : ChainState Database × List SignedTransaction) : Prop where
  node : NodeInv r.1
  included : ∀ stx ∈ r.2, ∃ b ∈ blocksOf ops, stx ∈ b.transactions
  counted : NoContractSigns P (blocksOf ops) → ∀ a, (signedBy a r.2).length < 2 ^ 64 →
    Counted a r.2 (accountOf r.1.storage.accounts a).nonce

variable {ops : List (ChainOp W)}

theorem ReplayInv.quiet {s s' : ChainState Database} {op : ChainOp W} (hi : ReplayInv P ops (s, h))
    (hn : NodeInv s') (ha : s'.storage.accounts = s.storage.accounts) (hb : blocksOf [op] = []) :
    ReplayInv P (ops ++ [op]) (s', h) := by
  have hops : blocksOf (ops ++ [op]) = blocksOf ops := by rw [blocksOf_append, hb, List.append_nil]
  refine ⟨hn, ?_, ?_⟩
  · rw [hops]
    exact hi.included
  · rw [hops, ha]
    exact hi.counted

variable {g : GenesisConfig}

theorem replayInv_applyBlock {s s' : ChainState Database} {ord : ℕ → HashOrders}
    {cache : HashMap Blake3Hash W.Module} {block : Block} (hi : ReplayInv P ops (s, h))
    (hs : ChainStep P W cfg g s (.applyBlock ord cache block) s') :
    ReplayInv P (ops ++ [.applyBlock ord cache block])
      (s', h ++ executedBy P W cfg s (.applyBlock ord cache block)) := by
  have hblocks : blocksOf (ops ++ [.applyBlock ord cache block]) = blocksOf ops ++ [block] :=
    blocksOf_append ..
  refine ⟨nodeInv_step P hi.node hs, ?_, ?_⟩
  · intro stx hm
    rw [hblocks]
    rcases List.mem_append.mp hm with hm | hm
    · obtain ⟨b, hb, hin⟩ := hi.included stx hm
      exact ⟨b, by simp [hb], hin⟩
    · exact ⟨block, by simp, Exec.executed_subset _ _ _ hm⟩
  · rw [hblocks]
    intro hfree a hlt
    have hbefore := hi.counted hfree.of_append a
      (lt_of_le_of_lt (length_signedBy_le_append ..) hlt)
    obtain ⟨r, rs, ha, hok, rfl⟩ := hs
    obtain ⟨-, -, l, hl, rfl⟩ := applyBlock_ok ha hok
    have hkeyed : Keyed l.accounts := by
      refine (Exec.executeTxs_effect hl).keyed ?_
      rw [Loop.accounts_toLoop]
      exact hi.node.keyed
    show Counted a _ (accountOf (l.storage.commitBlock P block l.receipts _).accounts a).nonce
    rw [accounts_commitBlock hkeyed]
    refine Exec.counted_executeTxs hl ?_ hlt ?_
    · rw [Loop.accounts_toLoop]
      exact hbefore
    · -- a signer of the past or of this block is not the address that this block derives
      rintro d hd hdep t ht rfl
      rcases List.mem_append.mp ht with ht | ht
      · obtain ⟨b, hb, hin⟩ := hi.included t ht
        exact hfree block (by simp) d hd b (by simp [hb]) t hin hdep
      · exact hfree block (by simp) d hd block (by simp) t ht hdep

theorem replayInv_step {r r' : ChainState Database × List SignedTransaction} {op : ChainOp W}
    (hi : ReplayInv P ops r) (hs : RecordedStep P W cfg g r op r') :
    ReplayInv P (ops ++ [op]) r' := by
  obtain ⟨s, h⟩ := r
  obtain ⟨s', h'⟩ := r'
  obtain ⟨hstep, hh⟩ := hs
  dsimp only at hstep hh
  subst hh
  have hn := nodeInv_step P hi.node hstep
  cases op with
  | applyBlock ord cache block => exact replayInv_applyBlock hi hstep
  | advanceEpoch params now =>
    rw [show executedBy P W cfg s _ = [] from rfl, List.append_nil]
    refine hi.quiet hn ?_ rfl
    rw [← show _ = s' from hstep, accounts_maybeAdvanceEpoch]
  | putValidator v =>
    rw [show executedBy P W cfg s _ = [] from rfl, List.append_nil]
    exact hi.quiet hn (by rw [← show _ = s' from hstep]; rfl) rfl
  | restart =>
    rw [show executedBy P W cfg s _ = [] from rfl, List.append_nil]
    obtain ⟨d, hd⟩ := hstep
    exact hi.quiet hn (by rw [storage_restart P hi.node hd]) rfl

theorem nonce_started {s : ChainState Database} (h : Started P g s) (a : Address) :
    (accountOf s.storage.accounts a).nonce = 0 := by
  obtain ⟨d, hd⟩ := h
  obtain ⟨-, b, -, ⟨-, rfl⟩ | ⟨hg, -⟩⟩ := fromGenesis_ok P hd
  · exact accounts_initialized P (p := fun _ x => x.nonce = 0) (fun _ _ => rfl) (fun _ => rfl) a
  · cases hg

theorem replayInv_of_run {s₀ s : ChainState Database} (h0 : Started P g s₀)
    (hrun : Run (RecordedStep P W cfg g) Free (s₀, []) ops (s, h)) : ReplayInv P ops (s, h) := by
  have hstart : ReplayInv P ([] : List (ChainOp W)) (s₀, []) := by
    have hreach : Reachable P W cfg g s₀ := ⟨s₀, [], h0, .nil⟩
    refine ⟨Reachable.inv P hreach, by simp, fun _ a _ => ?_⟩
    rw [nonce_started h0]
    rfl
  exact hrun.history hstart fun _ _ _ _ hi _ hs => replayInv_step hi hs

theorem Counted.eq_of_nonce {a : Address} {n : ℕ} (hc : Counted a h n) {t u : SignedTransaction}
    (ht : t ∈ signedBy a h) (hu : u ∈ signedBy a h)
    (hnonce : t.transaction.nonce = u.transaction.nonce) : t = u := by
  have hnodup : ((signedBy a h).map (·.transaction.nonce)).Nodup := by
    rw [show _ = List.range n from hc]
    exact List.nodup_range
  exact List.inj_on_of_nodup_map hnodup ht hu hnonce

theorem nodup_of_counted (hc : ∀ a, ∃ n, Counted a h n) : h.Nodup := by
  rw [List.nodup_iff_count_le_one]
  intro stx
  obtain ⟨n, hn⟩ := hc stx.sender
  have hnodup : (signedBy stx.sender h).Nodup := by
    refine List.Nodup.of_map (·.transaction.nonce) ?_
    rw [show _ = List.range n from hn]
    exact List.nodup_range
  have hcount : List.count stx (signedBy stx.sender h) = List.count stx h :=
    List.count_filter (by simp)
  rw [← hcount]
  exact List.nodup_iff_count_le_one.mp hnodup stx

/-- **Replay protection**: in every run of a node whose signers are no contract addresses and sign
less than 2^64 executed transactions each, the executed transactions of every address carry the
nonces 0, 1, 2, …, the nonce of its account is their number, and no transaction is executed twice.
-/
theorem executed_nonces_count (P : Primitives) (W : Wasmtime) (cfg : VmConfig) {g : GenesisConfig}
    {s₀ s : ChainState Database} {ops : List (ChainOp W)} {h : List SignedTransaction}
    (h0 : Started P g s₀) (hrun : Run (RecordedStep P W cfg g) Free (s₀, []) ops (s, h))
    (hfree : NoContractSigns P (blocksOf ops)) (hlt : ∀ a, (signedBy a h).length < 2 ^ 64) :
    (∀ a, (signedBy a h).map (·.transaction.nonce) = List.range (signedBy a h).length ∧
      (accountOf s.storage.accounts a).nonce = (signedBy a h).length) ∧ h.Nodup := by
  have hinv := replayInv_of_run h0 hrun
  have hcount := fun a => hinv.counted hfree a (hlt a)
  refine ⟨fun a => ?_, nodup_of_counted fun a => ⟨_, hcount a⟩⟩
  have hlen := (hcount a).length
  rw [hlen]
  exact ⟨hcount a, rfl⟩

def Small.repeatBlock : Block :=
  let tx (n : ℕ) := Small.tx 2 n .transfer (some ((KeyPair.small 3).address .small)) 7 []
  Small.next Small.genesisBlock [tx 0, tx 1, tx 0]

def Small.repeatHistory : List SignedTransaction :=
  executedBy .small .small .default Small.start
    (.applyBlock (fun _ => .listed) ∅ Small.repeatBlock)

theorem repeated_transaction_executed_once : ∃ a rs,
    Small.apply Small.start Small.repeatBlock = some a ∧ a.result = .ok rs ∧
    (signedBy ((KeyPair.small 2).address .small) Small.repeatHistory).length = 2 ∧
    (∀ b, (signedBy b Small.repeatHistory).map (·.transaction.nonce) =
        List.range (signedBy b Small.repeatHistory).length ∧
      (accountOf a.state.storage.accounts b).nonce = (signedBy b Small.repeatHistory).length) ∧
    Small.repeatHistory.Nodup := by
  obtain ⟨a, rs, ha, hok, -⟩ := Small.apply_ok Small.start Small.repeatBlock
    (p := fun _ => True) (by decide +kernel)
  have hrun : Run (RecordedStep .small .small .default Small.genesis) Free (Small.start, [])
      ([] ++ [.applyBlock (fun _ => .listed) ∅ Small.repeatBlock])
      (a.state, Small.repeatHistory) := .snoc .nil trivial ⟨⟨a, rs, ha, hok, rfl⟩, rfl⟩
  have hfree : NoContractSigns .small [Small.repeatBlock] := by
    intro b hb d hd _ _ _ _ hdep
    obtain rfl := List.mem_singleton.mp hb
    have hall : ∀ d ∈ Small.repeatBlock.transactions, d.transaction.txType ≠ .contractDeploy := by
      decide +kernel
    exact hall d hd hdep.1
  have hlen : Small.repeatHistory.length = 2 := by decide +kernel
  have hlt : ∀ b, (signedBy b Small.repeatHistory).length < 2 ^ 64 := fun b =>
    lt_of_le_of_lt (List.length_filter_le ..) (by rw [hlen]; decide)
  exact ⟨a, rs, ha, hok, by decide +kernel,
    executed_nonces_count .small .small .default Small.started hrun hfree hlt⟩

end Rustchain.Consensus
