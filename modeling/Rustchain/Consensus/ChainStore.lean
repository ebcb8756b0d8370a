import Rustchain.Consensus.Restart

/-! # The stored chain

The chain is spread over several column families: blocks by number, numbers by hash, the place of
every transaction and its receipt, and the entries for the height and the best block. All of them
are written by the batch of an applied block and by nothing else after the first start, so the
stored blocks are a chain, link by link, from the genesis block to the head. Receipts and places are
kept under a hash that the transaction carries, so a later transaction with the same hash replaces
them. -/

namespace Rustchain.Consensus

open Rustchain.Core Storage Vm Lib.Machine Lib.Maps Lib.Partial Lib.Runs

variable {P : Primitives} {W : Wasmtime} {cfg : VmConfig} {g : GenesisConfig}

/-! ### What an applied block writes -/

/-- A block was appended: what the chain columns and the head are afterwards. -/
structure Appended (P : Primitives) (s : ChainState Database) (block : Block)
    (rs : List TransactionReceipt) (s' : ChainState Database) : Prop where
  parent : block.header.parentHash = s.head.hash P
  number : block.header.number = (addU 64 s.height 1).val
  head : s'.head = block
  height : s'.height = block.header.number
  hashes : rs.map (·.txHash) = block.transactions.map (·.hash)
  blocks : s'.storage.blocks = s.storage.blocks.insert block.header.number block
  blockHashes : s'.storage.blockHashes =
    s.storage.blockHashes.insert (block.hash P) block.header.number
  txIndex : s'.storage.txIndex = block.transactions.zipIdx.foldl
    (fun m e => m.insert e.1.hash (block.header.number, e.2 % 2 ^ 32)) s.storage.txIndex
  receipts : s'.storage.receipts =
    rs.foldl (fun m r => m.insert r.txHash r) s.storage.receipts
  chainHeight : s'.storage.chainHeight = some block.header.number
  bestBlockHash : s'.storage.bestBlockHash = some (block.hash P)
  genesisHash : s'.storage.genesisHash = s.storage.genesisHash

variable {block : Block} {rs : List TransactionReceipt}

theorem appended_of_applyBlock {ord : ℕ → HashOrders} {cache : HashMap Blake3Hash W.Module}
    {s : ChainState Database} {a : Applied W.Module Database}
    (ha : applyBlock P W cfg ord cache s block = some a) (hok : a.result = .ok rs) :
    Appended P s block rs a.state := by
  obtain ⟨hparent, hnumber, l, hl, rfl⟩ := applyBlock_ok ha hok
  obtain rfl := Except.ok.inj hok
  have hchain : SameChain s.storage l.storage := (Exec.executeTxs_effect hl).chain
  refine ⟨hparent, hnumber, rfl, rfl, Exec.executeTxs_receipts hl, ?_, ?_, ?_, ?_, rfl, rfl, ?_⟩
  · show l.storage.blocks.insert _ _ = _
    rw [hchain]
  · show l.storage.blockHashes.insert _ _ = _
    rw [hchain]
  · show block.transactions.zipIdx.foldl _ l.storage.txIndex = _
    rw [hchain]
    rfl
  · show l.receipts.foldl _ l.storage.receipts = _
    rw [hchain]
  · show l.storage.genesisHash = _
    rw [hchain]

/-- A call on the chain state: a step, or a block that is refused. -/
def ChainCall (P : Primitives) (W : Wasmtime) (cfg : VmConfig) (g : GenesisConfig)
    (s : ChainState Database) (op : ChainOp W) (s' : ChainState Database) : Prop :=
  ChainStep P W cfg g s op s' ∨ ∃ ord cache block a e, op = .applyBlock ord cache block ∧
    applyBlock P W cfg ord cache s block = some a ∧ a.result = .error e ∧ a.state = s'

/-- The height is below the wrap of `u64`. -/
def BelowWrap (s : ChainState Database) (_ : ChainOp W) : Prop := s.height + 1 < 2 ^ 64

/-- The headers of the blocks are among those that Blake3 tells apart, below the wrap. -/
def Fits (headers : Set BlockHeader) (s : ChainState Database) (op : ChainOp W) : Prop :=
  BelowWrap s op ∧ ∀ b ∈ blocksOf [op], b.header ∈ headers

/-! ### Height and head -/

/-- A step that applies no block keeps the chain columns, the head and the height. -/
structure SameColumns (s s' : ChainState Database) : Prop where
  height : s'.height = s.height
  head : s'.head = s.head
  blocks : s'.storage.blocks = s.storage.blocks
  blockHashes : s'.storage.blockHashes = s.storage.blockHashes
  txIndex : s'.storage.txIndex = s.storage.txIndex
  receipts : s'.storage.receipts = s.storage.receipts
  bestBlockHash : s'.storage.bestBlockHash = s.storage.bestBlockHash

variable {op : ChainOp W} {s s' : ChainState Database}

theorem appended_or_same (h : Stored P g s) (hs : ChainStep P W cfg g s op s') :
    (∃ block rs, blocksOf [op] = [block] ∧ Appended P s block rs s') ∨
      blocksOf [op] = [] ∧ SameColumns s s' := by
  cases op with
  | applyBlock ord cache block =>
    obtain ⟨a, rs, ha, hok, rfl⟩ := hs
    exact .inl ⟨block, rs, rfl, appended_of_applyBlock ha hok⟩
  | advanceEpoch params now =>
    obtain rfl := hs
    refine .inr ⟨rfl, ?_⟩
    rw [maybeAdvanceEpoch_eq]
    split_ifs <;> exact ⟨rfl, rfl, rfl, rfl, rfl, rfl, rfl⟩
  | putValidator v =>
    obtain rfl := hs
    exact .inr ⟨rfl, rfl, rfl, rfl, rfl, rfl, rfl, rfl⟩
  | restart =>
    obtain ⟨d, hd⟩ := hs
    have hres := congrArg Prod.fst hd
    rw [fromGenesis_stored h] at hres
    obtain ⟨e, -, rfl⟩ := Option.map_eq_some_iff.mp (Except.ok.inj hres)
    exact .inr ⟨rfl, rfl, rfl, rfl, rfl, rfl, rfl, rfl⟩

/-! ### The invariant -/

/-- The stored blocks form a chain that ends at the head. -/
structure ChainStored (P : Primitives) (g : GenesisConfig) (headers : Set BlockHeader)
    (s : ChainState Database) : Prop extends Stored P g s where
  numbered : ∀ i ≤ s.height, ∃ b, s.storage.blocks.lookup i = some b ∧ b.header ∈ headers ∧
    b.header.number = i ∧ s.storage.blockHashes.lookup (b.hash P) = some i
  linked : ∀ i < s.height, ∀ b c, s.storage.blocks.lookup i = some b →
    s.storage.blocks.lookup (i + 1) = some c → c.header.parentHash = b.hash P
  best : 1 ≤ s.height → s.storage.bestBlockHash = some (s.head.hash P)

variable {headers : Set BlockHeader}

theorem chainStored_first {d d' : Database} {s : ChainState Database} {b : Block}
    (hd : d.genesisHash = none) (h : fromGenesis P g d = (.ok (some s), d'))
    (hb : g.toGenesisBlock = some b) (hmem : b.header ∈ headers) : ChainStored P g headers s := by
  have hstored : Stored P g s := stored_first hd h
  obtain ⟨-, b', hb', ⟨-, rfl⟩ | ⟨hg, -⟩⟩ := fromGenesis_ok P h
  · obtain rfl := Option.some.inj (hb.symm.trans hb')
    have hnum : b.header.number = 0 := by
      obtain ⟨v, -, rfl⟩ := Option.map_eq_some_iff.mp hb
      rfl
    refine ⟨hstored, fun i hi => ?_, fun i hi => ?_, fun hpos => ?_⟩
    · obtain rfl : i = 0 := Nat.le_zero.mp hi
      refine ⟨b, hstored.head, hmem, hnum, ?_⟩
      show (initialized P g b d).blockHashes.lookup _ = _
      rw [field_initialized P (f := Database.blockHashes) (fun _ _ => rfl) (fun _ _ => rfl)
        (fun _ _ => rfl) g b d, ← hnum]
      exact Finmap.lookup_insert _
    · exact absurd hi (Nat.not_lt_zero i)
    · exact absurd hpos (Nat.not_succ_le_zero 0)
  · rw [hd] at hg
    cases hg

/-- The entries of the chain up to the height of a state stay. -/
def KeepsBlocks (s s' : ChainState Database) : Prop :=
  s.height ≤ s'.height ∧ ∀ i ≤ s.height, s'.storage.blocks.lookup i = s.storage.blocks.lookup i

theorem KeepsBlocks.refl (s : ChainState Database) : KeepsBlocks s s := ⟨le_rfl, fun _ _ => rfl⟩

theorem KeepsBlocks.trans {s t u : ChainState Database} (h1 : KeepsBlocks s t)
    (h2 : KeepsBlocks t u) : KeepsBlocks s u :=
  ⟨h1.1.trans h2.1, fun i hi => (h2.2 i (hi.trans h1.1)).trans (h1.2 i hi)⟩

theorem Appended.number_eq (ha : Appended P s block rs s') (hlt : s.height + 1 < 2 ^ 64) :
    block.header.number = s.height + 1 := ha.number.trans (Nat.mod_eq_of_lt hlt)

theorem Appended.keepsBlocks (ha : Appended P s block rs s') (hlt : s.height + 1 < 2 ^ 64) :
    KeepsBlocks s s' := by
  have hnum := ha.number_eq hlt
  have hheight := ha.height
  refine ⟨by omega, fun i hi => ?_⟩
  rw [ha.blocks]
  exact Finmap.lookup_insert_of_ne _ (by omega)

theorem ChainStored.appended (hfree : BlockHeader.CollisionFree P headers)
    (h : ChainStored P g headers s) (hstored : Stored P g s') (ha : Appended P s block rs s')
    (hmem : block.header ∈ headers) (hlt : s.height + 1 < 2 ^ 64) :
    ChainStored P g headers s' := by
  have hnum := ha.number_eq hlt
  have hheight : s'.height = s.height + 1 := ha.height.trans hnum
  have hold := (ha.keepsBlocks hlt).2
  have hnew : s'.storage.blocks.lookup (s.height + 1) = some block := by
    rw [ha.blocks, hnum]
    exact Finmap.lookup_insert _
  refine ⟨hstored, fun i hi => ?_, fun i hi b c hb hc => ?_, fun _ => ?_⟩
  · by_cases hlast : i = s.height + 1
    · refine ⟨block, by rw [hlast, hnew], hmem, by omega, ?_⟩
      rw [ha.blockHashes, hnum, hlast]
      exact Finmap.lookup_insert _
    · obtain ⟨b, hb, hbm, hbn, hbh⟩ := h.numbered i (by omega)
      refine ⟨b, by rw [hold i (by omega), hb], hbm, hbn, ?_⟩
      -- the new hash is none of the old ones, because the numbers differ
      have hne : b.hash P ≠ block.hash P := by
        intro heq
        have hsame := congrArg BlockHeader.number (hfree _ hbm _ hmem heq)
        change b.header.number = block.header.number at hsame
        omega
      rw [ha.blockHashes, Finmap.lookup_insert_of_ne _ hne, hbh]
  · rw [hold i (by omega)] at hb
    by_cases hlast : i = s.height
    · subst hlast
      obtain rfl : c = block := Option.some.inj (hc.symm.trans hnew)
      obtain rfl : b = s.head := Option.some.inj (hb.symm.trans h.head)
      exact ha.parent
    · rw [hold (i + 1) (by omega)] at hc
      exact h.linked i (by omega) b c hb hc
  · rw [ha.bestBlockHash, ha.head]

theorem ChainStored.same (h : ChainStored P g headers s) (hstored : Stored P g s')
    (hs : SameColumns s s') : ChainStored P g headers s' := by
  refine ⟨hstored, ?_, ?_, ?_⟩
  · rw [hs.height, hs.blocks, hs.blockHashes]
    exact h.numbered
  · rw [hs.height, hs.blocks]
    exact h.linked
  · rw [hs.height, hs.bestBlockHash, hs.head]
    exact h.best

theorem chainStored_step (hfree : BlockHeader.CollisionFree P headers)
    (h : ChainStored P g headers s) (hfits : Fits headers s op) (hs : ChainStep P W cfg g s op s') :
    ChainStored P g headers s' ∧ KeepsBlocks s s' := by
  have hstored := stored_chainStep h.toStored hs
  obtain ⟨hlt, hmem⟩ := hfits
  rcases appended_or_same h.toStored hs with ⟨block, rs, hop, ha⟩ | ⟨-, hsame⟩
  · have hm : block.header ∈ headers := hmem block (by rw [hop]; simp)
    exact ⟨h.appended hfree hstored ha hm hlt, ha.keepsBlocks hlt⟩
  · refine ⟨h.same hstored hsame, by rw [hsame.height], fun i _ => ?_⟩
    rw [hsame.blocks]

theorem chainStored_call (hfree : BlockHeader.CollisionFree P headers)
    (h : ChainStored P g headers s) (hfits : Fits headers s op) (hs : ChainCall P W cfg g s op s') :
    ChainStored P g headers s' ∧ KeepsBlocks s s' := by
  rcases hs with hs | ⟨ord, cache, block, a, e, -, ha, herr, rfl⟩
  · exact chainStored_step hfree h hfits hs
  · rw [(applyBlock_error ha herr).2.1]
    exact ⟨h, .refl s⟩

theorem chainStored_run (hfree : BlockHeader.CollisionFree P headers) {ops : List (ChainOp W)}
    (h : ChainStored P g headers s) (hrun : Run (ChainCall P W cfg g) (Fits headers) s ops s') :
    ChainStored P g headers s' ∧ KeepsBlocks s s' := by
  refine hrun.invariant (I := fun t => ChainStored P g headers t ∧ KeepsBlocks s t)
    ⟨h, .refl s⟩ fun t i u ht hG hs => ?_
  obtain ⟨hu, hk⟩ := chainStored_call hfree ht.1 hG hs
  exact ⟨hu, ht.2.trans hk⟩

/-- **The stored chain**, as the read functions of the database give it. -/
structure StoredChain (P : Primitives) (s : ChainState Database) : Prop where
  block : ∀ i ≤ s.height, ∃ b, (getBlockByNumber i s.storage).1 = .ok (some b) ∧
    b.header.number = i ∧ (getBlockByHash (b.hash P) s.storage).1 = .ok (some b)
  link : ∀ i < s.height, ∀ b c, (getBlockByNumber i s.storage).1 = .ok (some b) →
    (getBlockByNumber (i + 1) s.storage).1 = .ok (some c) → c.header.parentHash = b.hash P
  height : (getChainHeight s.storage).1 = .ok (some s.height)
  head : (getBlockByNumber s.height s.storage).1 = .ok (some s.head)
  best : 1 ≤ s.height → s.storage.bestBlockHash = some (s.head.hash P)

theorem ChainStored.storedChain {s : ChainState Database} (h : ChainStored P g headers s) :
    StoredChain P s := by
  refine ⟨fun i hi => ?_, fun i hi b c hb hc => ?_, ?_, ?_, h.best⟩
  · obtain ⟨b, hb, -, hn, hh⟩ := h.numbered i hi
    refine ⟨b, congrArg Except.ok hb, hn, ?_⟩
    rw [getBlockByHash_database, hh]
    exact congrArg Except.ok hb
  · exact h.linked i hi b c (Except.ok.inj hb) (Except.ok.inj hc)
  · exact congrArg Except.ok h.height
  · exact congrArg Except.ok h.head

/-- **Stored chain integrity.** From the first start on any database without a chain, after any
sequence of applied blocks, refused blocks, epoch transitions, validator writes and restarts, the
stored blocks form the chain of the head, and what follows does not change them. -/
theorem stored_chain_integrity (P : Primitives) (W : Wasmtime) (cfg : VmConfig) {g : GenesisConfig}
    {headers : Set BlockHeader} (hfree : BlockHeader.CollisionFree P headers) {b : Block}
    (hb : g.toGenesisBlock = some b) (hmem : b.header ∈ headers) {d d' : Database}
    {s₀ s s' : ChainState Database} {ops ops' : List (ChainOp W)} (hd : d.genesisHash = none)
    (h0 : fromGenesis P g d = (.ok (some s₀), d'))
    (hrun : Run (ChainCall P W cfg g) (Fits headers) s₀ ops s)
    (hrun' : Run (ChainCall P W cfg g) (Fits headers) s ops' s') :
    StoredChain P s ∧ ∀ i ≤ s.height,
      (getBlockByNumber i s'.storage).1 = (getBlockByNumber i s.storage).1 := by
  obtain ⟨hs, -⟩ := chainStored_run hfree (chainStored_first hd h0 hb hmem) hrun
  obtain ⟨-, hkeep⟩ := chainStored_run hfree hs hrun'
  exact ⟨hs.storedChain, fun i hi => congrArg Except.ok (hkeep.2 i hi)⟩

namespace Small

def pay : SignedTransaction := tx 2 0 .transfer (some ((KeyPair.small 3).address .small)) 7 []

def payBlock : Block := next genesisBlock [pay]

theorem payBlock_applied : ∃ a rs, apply start payBlock = some a ∧ a.result = .ok rs ∧
    ∃ r, rs[0]? = some r ∧ r.status = .success := by
  obtain ⟨a, rs, ha, hok, hp⟩ := apply_ok start payBlock
    (p := fun a => (a.result.toOption.bind (·[0]?)).any (fun r => decide (r.status = .success)))
    (by decide +kernel)
  refine ⟨a, rs, ha, hok, ?_⟩
  rw [hok] at hp
  obtain ⟨r, hr, hs⟩ := (Option.any_eq_true _ _).mp hp
  exact ⟨r, hr, of_decide_eq_true hs⟩

def payHeaders : Set BlockHeader := {h | h ∈ [genesisBlock.header, payBlock.header]}

theorem payHeaders_apart : BlockHeader.CollisionFree .small payHeaders := by
  have hlist : ∀ h ∈ [genesisBlock.header, payBlock.header],
      ∀ h' ∈ [genesisBlock.header, payBlock.header],
        h.hash .small = h'.hash .small → h.unsigned = h'.unsigned := by decide +kernel
  exact hlist

end Small

/-- The chain after one block, which is then given a second time and refused. -/
theorem payment_block_stored : ∃ s s' ops,
    Run (ChainCall .small .small .default Small.genesis) (Fits Small.payHeaders) Small.start
      ([] ++ [.applyBlock (fun _ => .listed) ∅ Small.payBlock]) s ∧
    Run (ChainCall .small .small .default Small.genesis) (Fits Small.payHeaders) s ops s' ∧
    s.height = 1 ∧ StoredChain .small s ∧ ∀ i ≤ s.height,
      (getBlockByNumber i s'.storage).1 = (getBlockByNumber i s.storage).1 := by
  obtain ⟨a, rs, ha, hok, -⟩ := Small.payBlock_applied
  have happ := appended_of_applyBlock ha hok
  have hheight : a.state.height = 1 := happ.height.trans (by decide +kernel)
  have hmem : ∀ b ∈ blocksOf [(.applyBlock (fun _ => .listed) ∅ Small.payBlock :
      ChainOp Wasmtime.small)], b.header ∈ Small.payHeaders := by
    intro b hb
    obtain rfl := List.mem_singleton.mp hb
    exact List.mem_cons_of_mem _ (List.mem_singleton.mpr rfl)
  have hrun : Run (ChainCall .small .small .default Small.genesis) (Fits Small.payHeaders)
      Small.start ([] ++ [.applyBlock (fun _ => .listed) ∅ Small.payBlock]) a.state :=
    .snoc .nil ⟨by rw [BelowWrap]; decide, hmem⟩ (.inl ⟨a, rs, ha, hok, rfl⟩)
  have hnot : ¬ Extends .small a.state Small.payBlock := by
    intro hext
    have hparent := hext.1
    rw [happ.head] at hparent
    revert hparent
    decide +kernel
  obtain ⟨e, ov, hrefused⟩ : ∃ e ov, Small.apply a.state Small.payBlock =
      some ⟨.error e, a.state, ∅, ov⟩ := applyBlock_of_not_extends hnot
  have hrun' : Run (ChainCall .small .small .default Small.genesis) (Fits Small.payHeaders)
      a.state ([] ++ [.applyBlock (fun _ => .listed) ∅ Small.payBlock]) a.state :=
    .snoc .nil ⟨by rw [BelowWrap, hheight]; decide, hmem⟩
      (.inr ⟨_, _, _, _, e, rfl, hrefused, rfl, rfl⟩)
  obtain ⟨d, hd⟩ := Small.started
  exact ⟨a.state, a.state, _, hrun, hrun', hheight, stored_chain_integrity .small .small .default
    Small.payHeaders_apart rfl (List.mem_cons_self ..) rfl hd hrun hrun'⟩

/-! ### Common prefixes -/

/-- A node that was started on a database without a chain, with any genesis file, and called after
that in any way; its headers are among those that Blake3 tells apart. -/
def HasChain (P : Primitives) (W : Wasmtime) (cfg : VmConfig) (headers : Set BlockHeader)
    (s : ChainState Database) : Prop :=
  ∃ g b d d' s₀ ops, g.toGenesisBlock = some b ∧ b.header ∈ headers ∧ d.genesisHash = none ∧
    fromGenesis P g d = (.ok (some s₀), d') ∧ Run (ChainCall P W cfg g) (Fits headers) s₀ ops s

theorem HasChain.chainStored (hfree : BlockHeader.CollisionFree P headers)
    {s : ChainState Database} (h : HasChain P W cfg headers s) :
    ∃ g, ChainStored P g headers s := by
  obtain ⟨g, b, d, d', s₀, ops, hb, hmem, hd, h0, hrun⟩ := h
  exact ⟨g, (chainStored_run hfree (chainStored_first hd h0 hb hmem) hrun).1⟩

theorem ChainStored.header_mem {s : ChainState Database} (h : ChainStored P g headers s) {i : ℕ}
    {b : Block} (hi : i ≤ s.height) (hb : s.storage.blocks.lookup i = some b) :
    b.header ∈ headers ∧ b.header.number = i := by
  obtain ⟨b', hb', hmem, hn, -⟩ := h.numbered i hi
  obtain rfl := Option.some.inj (hb.symm.trans hb')
  exact ⟨hmem, hn⟩

/-- Two stored chains that meet in a block hash agree on every header below it: each header has the
hash of the one before. -/
theorem ChainStored.agree_below (hfree : BlockHeader.CollisionFree P headers) {g' : GenesisConfig}
    {s t : ChainState Database} (hs : ChainStored P g headers s)
    (ht : ChainStored P g' headers t) :
    ∀ {i : ℕ} {b c : Block}, i ≤ s.height → i ≤ t.height → s.storage.blocks.lookup i = some b →
      t.storage.blocks.lookup i = some c → b.hash P = c.hash P → ∀ k ≤ i, ∃ b' c',
        s.storage.blocks.lookup k = some b' ∧ t.storage.blocks.lookup k = some c' ∧
          b'.header.unsigned = c'.header.unsigned := by
  intro i
  induction i with
  | zero =>
    intro b c hi hi' hb hc heq k hk
    obtain rfl := Nat.le_zero.mp hk
    exact ⟨b, c, hb, hc, hfree _ (hs.header_mem hi hb).1 _ (ht.header_mem hi' hc).1 heq⟩
  | succ i ih =>
    intro b c hi hi' hb hc heq k hk
    have hsame := hfree _ (hs.header_mem hi hb).1 _ (ht.header_mem hi' hc).1 heq
    obtain rfl | hlt := Nat.eq_or_lt_of_le hk
    · exact ⟨b, c, hb, hc, hsame⟩
    · obtain ⟨b₁, hb₁, -⟩ := hs.numbered i (by omega)
      obtain ⟨c₁, hc₁, -⟩ := ht.numbered i (by omega)
      have hparent := congrArg BlockHeader.parentHash hsame
      change b.header.parentHash = c.header.parentHash at hparent
      rw [hs.linked i (by omega) b₁ b hb₁ hb, ht.linked i (by omega) c₁ c hc₁ hc] at hparent
      exact ih (by omega) (by omega) hb₁ hc₁ hparent k (by omega)

/-- What the database has recorded of a transaction hash: a receipt and a place in the chain. -/
def Recorded (d : Database) (h : Blake3Hash) (r : TransactionReceipt) (n i : ℕ) : Prop :=
  (getReceipt h d).1 = .ok (some r) ∧ (getTxLocation h d).1 = .ok (some (n, i))

/-- The transactions of a list carry other hashes. -/
def NotIn (h : Blake3Hash) (txs : List SignedTransaction) : Prop := ∀ tx ∈ txs, tx.hash ≠ h

theorem Appended.lookup_of_notIn {h : Blake3Hash} (ha : Appended P s block rs s')
    (hnot : NotIn h block.transactions) :
    s'.storage.receipts.lookup h = s.storage.receipts.lookup h ∧
      s'.storage.txIndex.lookup h = s.storage.txIndex.lookup h := by
  constructor
  · rw [ha.receipts]
    refine lookup_writes_of_notMem _ fun r hr hrh => ?_
    have hmem : r.txHash ∈ block.transactions.map (·.hash) := by
      rw [← ha.hashes]
      exact List.mem_map_of_mem hr
    obtain ⟨tx, htx, heq⟩ := List.mem_map.mp hmem
    exact hnot tx htx (heq.trans hrh)
  · rw [ha.txIndex]
    refine lookup_writes_of_notMem _ fun e he => ?_
    exact hnot e.1 (List.fst_mem_of_mem_zipIdx he)

theorem Appended.txIndex_of_mem {h : Blake3Hash} (ha : Appended P s block rs s')
    (hin : ¬ NotIn h block.transactions) :
    ∃ i, s'.storage.txIndex.lookup h = some (block.header.number, i) := by
  have hex : ∃ e ∈ block.transactions.zipIdx, e.1.hash = h := by
    simp only [NotIn, ne_eq, not_forall, not_not] at hin
    obtain ⟨tx, htx, heq⟩ := hin
    obtain ⟨i, hi⟩ := List.getElem?_of_mem htx
    exact ⟨(tx, i), List.mem_zipIdx_iff_getElem?.mpr hi, heq⟩
  obtain ⟨e, -, -, hlook⟩ := lookup_writes_of_mem (k := fun e : SignedTransaction × ℕ => e.1.hash)
    (v := fun e => (block.header.number, e.2 % 2 ^ 32)) s.storage.txIndex hex
  exact ⟨e.2 % 2 ^ 32, by rw [ha.txIndex, hlook]⟩

section
variable {s s' : ChainState Database} {block : Block} {rs : List TransactionReceipt}
variable {pre post : List SignedTransaction} {stx : SignedTransaction} {r : TransactionReceipt}

theorem Appended.lookup_of_last (ha : Appended P s block rs s')
    (htx : block.transactions = pre ++ stx :: post) (hr : rs[pre.length]? = some r)
    (hsize : block.transactions.length ≤ 2 ^ 32) (hlast : NotIn stx.hash post) :
    s'.storage.receipts.lookup stx.hash = some r ∧
      s'.storage.txIndex.lookup stx.hash = some (block.header.number, pre.length) := by
  have hsplit : rs = rs.take pre.length ++ r :: rs.drop (pre.length + 1) := by
    obtain ⟨hlt, hget⟩ := List.getElem?_eq_some_iff.mp hr
    rw [← hget, List.getElem_cons_drop, List.take_append_drop]
  have hhashes : r.txHash :: (rs.drop (pre.length + 1)).map (·.txHash) =
      stx.hash :: post.map (·.hash) := by
    have hdrop := congrArg (List.drop pre.length) ha.hashes
    rw [htx, ← List.map_drop, ← List.map_drop, List.drop_left] at hdrop
    rw [← List.map_cons, ← List.map_cons, ← hdrop]
    congr 1
    obtain ⟨hlt, hget⟩ := List.getElem?_eq_some_iff.mp hr
    rw [← hget, List.getElem_cons_drop]
  obtain ⟨hhash, hrest⟩ := List.cons_eq_cons.mp hhashes
  constructor
  · rw [ha.receipts, hsplit, List.foldl_append, List.foldl_cons, lookup_writes_of_notMem, ← hhash]
    · exact Finmap.lookup_insert _
    · intro x hx hxh
      have hmem : x.txHash ∈ post.map (·.hash) := by
        rw [← hrest]
        exact List.mem_map_of_mem hx
      obtain ⟨tx, htx, heq⟩ := List.mem_map.mp hmem
      exact hlast tx htx (heq.trans hxh)
  · have hlen : pre.length < 2 ^ 32 := by
      have hl := congrArg List.length htx
      rw [List.length_append, List.length_cons] at hl
      omega
    rw [ha.txIndex, htx, List.zipIdx_append, List.foldl_append, List.zipIdx_cons, List.foldl_cons,
      lookup_writes_of_notMem, Nat.zero_add, Nat.mod_eq_of_lt hlen]
    · exact Finmap.lookup_insert _
    · intro e he
      exact hlast e.1 (List.fst_mem_of_mem_zipIdx he)

theorem Appended.txIndex_of_later (ha : Appended P s block rs s')
    (htx : block.transactions = pre ++ stx :: post) (hsize : block.transactions.length ≤ 2 ^ 32)
    (hlater : ¬ NotIn stx.hash post) :
    ∃ j, j ≠ pre.length ∧ s'.storage.txIndex.lookup stx.hash = some (block.header.number, j) := by
  have hex : ∃ e ∈ post.zipIdx (pre.length + 1), e.1.hash = stx.hash := by
    simp only [NotIn, ne_eq, not_forall, not_not] at hlater
    obtain ⟨tx, hmem, heq⟩ := hlater
    obtain ⟨i, hi⟩ := List.getElem?_of_mem hmem
    refine ⟨(tx, pre.length + 1 + i), ?_, heq⟩
    exact List.mk_add_mem_zipIdx_iff_getElem?.mpr hi
  obtain ⟨e, he, -, hlook⟩ := lookup_writes_of_mem (k := fun e : SignedTransaction × ℕ => e.1.hash)
    (v := fun e => (block.header.number, e.2 % 2 ^ 32))
    ((pre.zipIdx.foldl (fun m e => m.insert e.1.hash (block.header.number, e.2 % 2 ^ 32))
      s.storage.txIndex).insert stx.hash (block.header.number, pre.length % 2 ^ 32)) hex
  have hle := List.le_snd_of_mem_zipIdx he
  have hlt := List.snd_lt_add_of_mem_zipIdx he
  have hl := congrArg List.length htx
  rw [List.length_append, List.length_cons] at hl
  refine ⟨e.2, by omega, ?_⟩
  rw [ha.txIndex, htx, List.zipIdx_append, List.foldl_append, List.zipIdx_cons, List.foldl_cons,
    Nat.zero_add, hlook, Nat.mod_eq_of_lt (by omega)]

end

/-- No transaction after one with the hash carries it too: neither in the rest of its block nor in
the blocks of the run that follows. -/
def NotLater (h : Blake3Hash) (post : List SignedTransaction) (ops : List (ChainOp W)) : Prop :=
  NotIn h post ∧ ∀ b ∈ blocksOf ops, NotIn h b.transactions

/-- What a run keeps of a recorded transaction: its record as long as the hash does not come again,
and another place from then on. -/
structure RecordInv (P : Primitives) (g : GenesisConfig) (h : Blake3Hash) (r : TransactionReceipt)
    (n i : ℕ) (post : List SignedTransaction) (ops : List (ChainOp W)) (t : ChainState Database) :
    Prop where
  stored : Stored P g t
  height : n ≤ t.height
  kept : NotLater h post ops →
    t.storage.receipts.lookup h = some r ∧ t.storage.txIndex.lookup h = some (n, i)
  moved : ¬ NotLater h post ops → ∃ m j, t.storage.txIndex.lookup h = some (m, j) ∧ (m, j) ≠ (n, i)

theorem recordInv_step {h : Blake3Hash} {r : TransactionReceipt} {n i : ℕ}
    {post : List SignedTransaction} {ops : List (ChainOp W)} {t u : ChainState Database}
    (hi : RecordInv P g h r n i post ops t) (hlt : BelowWrap t op)
    (hs : ChainStep P W cfg g t op u) : RecordInv P g h r n i post (ops ++ [op]) u := by
  have hstored := stored_chainStep hi.stored hs
  have hheight := hi.height
  rcases appended_or_same hi.stored hs with ⟨block, rs, hop, ha⟩ | ⟨hop, hsame⟩
  · have hnum := ha.number_eq hlt
    have hu := ha.height
    have hlater : NotLater h post (ops ++ [op]) ↔
        NotLater h post ops ∧ NotIn h block.transactions := by
      unfold NotLater
      rw [blocksOf_append, hop]
      simp only [List.mem_append, List.mem_singleton, or_imp, forall_and, forall_eq, and_assoc]
    by_cases hin : NotIn h block.transactions
    · obtain ⟨hreceipts, hindex⟩ := ha.lookup_of_notIn hin
      refine ⟨hstored, by omega, fun hn => ?_, fun hn => ?_⟩
      · rw [hreceipts, hindex]
        exact hi.kept (hlater.mp hn).1
      · rw [hindex]
        exact hi.moved fun hold => hn (hlater.mpr ⟨hold, hin⟩)
    · obtain ⟨j, hj⟩ := ha.txIndex_of_mem hin
      refine ⟨hstored, by omega, fun hn => absurd (hlater.mp hn).2 hin, fun _ => ?_⟩
      refine ⟨_, j, hj, fun heq => ?_⟩
      have hm := congrArg Prod.fst heq
      dsimp only at hm
      omega
  · have hlater : NotLater h post (ops ++ [op]) ↔ NotLater h post ops := by
      unfold NotLater
      rw [blocksOf_append, hop, List.append_nil]
    refine ⟨hstored, by rw [hsame.height]; exact hheight, ?_, ?_⟩
    · rw [hlater, hsame.receipts, hsame.txIndex]
      exact hi.kept
    · rw [hlater, hsame.txIndex]
      exact hi.moved

theorem Reachable.stored {s : ChainState Database} (h : Reachable P W cfg g s) : Stored P g s := by
  obtain ⟨s₀, ops, h0, hrun⟩ := h
  exact hrun.invariant (stored_start h0) fun _ _ _ ht _ hs => stored_chainStep ht hs

/-- **Receipts.** After a transaction was executed at an index of a block, every later state has its
receipt and its place if and only if no later transaction, of the same block or of a block after it,
carries the same hash. -/
theorem receipt_kept_iff (P : Primitives) (W : Wasmtime) (cfg : VmConfig) {g : GenesisConfig}
    {s u : ChainState Database} (hs : Reachable P W cfg g s) {ord : ℕ → HashOrders}
    {cache : HashMap Blake3Hash W.Module} {block : Block} {a : Applied W.Module Database}
    {rs : List TransactionReceipt} (ha : applyBlock P W cfg ord cache s block = some a)
    (hok : a.result = .ok rs) (hsize : block.transactions.length ≤ 2 ^ 32)
    {pre post : List SignedTransaction} {stx : SignedTransaction} {r : TransactionReceipt}
    (htx : block.transactions = pre ++ stx :: post) (hr : rs[pre.length]? = some r)
    {ops : List (ChainOp W)} (hrun : Run (ChainStep P W cfg g) BelowWrap a.state ops u) :
    Recorded u.storage stx.hash r block.header.number pre.length ↔ NotLater stx.hash post ops := by
  have happ := appended_of_applyBlock ha hok
  have hstart : RecordInv P g stx.hash r block.header.number pre.length post
      ([] : List (ChainOp W)) a.state := by
    have hnil : NotLater stx.hash post ([] : List (ChainOp W)) ↔ NotIn stx.hash post :=
      and_iff_left fun b hb => absurd hb List.not_mem_nil
    have hstep : ChainStep P W cfg g s (.applyBlock ord cache block) a.state :=
      ⟨a, rs, ha, hok, rfl⟩
    refine ⟨stored_chainStep hs.stored hstep, happ.height.ge, fun hn => ?_, fun hn => ?_⟩
    · exact happ.lookup_of_last htx hr hsize (hnil.mp hn)
    · obtain ⟨j, hj, hlook⟩ := happ.txIndex_of_later htx hsize (hnil.not.mp hn)
      exact ⟨_, j, hlook, fun heq => hj (congrArg Prod.snd heq)⟩
  have hinv : RecordInv P g stx.hash r block.header.number pre.length post ops u :=
    hrun.history hstart fun _ _ _ _ hi hlt hstep => recordInv_step hi hlt hstep
  constructor
  · rintro ⟨-, hloc⟩
    by_contra hn
    obtain ⟨m, j, hlook, hne⟩ := hinv.moved hn
    have hsome : u.storage.txIndex.lookup stx.hash = some (block.header.number, pre.length) :=
      Except.ok.inj hloc
    exact hne (Option.some.inj (hlook.symm.trans hsome))
  · intro hn
    obtain ⟨hreceipt, hindex⟩ := hinv.kept hn
    exact ⟨congrArg Except.ok hreceipt, congrArg Except.ok hindex⟩

namespace Small

def quietBlock : Block := next payBlock []

def againBlock : Block := next payBlock [pay]

theorem apply_after {a : Applied Small.Module Database} (ha : apply start payBlock = some a)
    (block : Block)
    (h : (apply start payBlock).map (fun a => (apply a.state block).map (·.result.toBool)) =
      some (some true)) : ∃ b rs', apply a.state block = some b ∧ b.result = .ok rs' := by
  rw [ha, Option.map_some, Option.some_inj] at h
  obtain ⟨b, hb, hres⟩ := Option.map_eq_some_iff.mp h
  cases hr : b.result with
  | error e => simp [hr, Except.toBool] at hres
  | ok rs' => exact ⟨b, rs', hb, hr⟩

end Small

theorem receipt_kept_after_quiet_block : ∃ a rs r b rs',
    Small.apply Small.start Small.payBlock = some a ∧ a.result = .ok rs ∧ rs[0]? = some r ∧
    Small.apply a.state Small.quietBlock = some b ∧ b.result = .ok rs' ∧
    Recorded b.state.storage Small.pay.hash r 1 0 := by
  obtain ⟨a, rs, ha, hok, r, hr, -⟩ := Small.payBlock_applied
  obtain ⟨b, rs', hb, hok'⟩ := Small.apply_after ha Small.quietBlock (by decide +kernel)
  have hheight : a.state.height = 1 :=
    (appended_of_applyBlock ha hok).height.trans (by decide +kernel)
  have hrun : Run (ChainStep .small .small .default Small.genesis) BelowWrap a.state
      ([] ++ [.applyBlock (fun _ => .listed) ∅ Small.quietBlock]) b.state :=
    .snoc .nil (by rw [BelowWrap, hheight]; decide) ⟨b, rs', hb, hok', rfl⟩
  refine ⟨a, rs, r, b, rs', ha, hok, hr, hb, hok', ?_⟩
  have htx : Small.payBlock.transactions = [] ++ Small.pay :: [] := rfl
  refine (receipt_kept_iff .small .small .default Small.reachable_start ha hok (by decide)
    htx hr hrun).mpr ⟨by simp [NotIn], fun c hc => ?_⟩
  obtain rfl := List.mem_singleton.mp hc
  intro tx htx
  exact absurd htx List.not_mem_nil

/-- The transfer was executed at index 0 of block 1. Block 2 contains it again, where it is skipped
for its nonce, and its receipt and place are overwritten. -/
theorem receipt_overwritten : ∃ a rs r b rs',
    Small.apply Small.start Small.payBlock = some a ∧ a.result = .ok rs ∧ rs[0]? = some r ∧
    r.status = .success ∧ Recorded a.state.storage Small.pay.hash r 1 0 ∧
    Small.apply a.state Small.againBlock = some b ∧ b.result = .ok rs' ∧
    ¬ Recorded b.state.storage Small.pay.hash r 1 0 := by
  obtain ⟨a, rs, ha, hok, r, hr, hs⟩ := Small.payBlock_applied
  obtain ⟨b, rs', hb, hok'⟩ := Small.apply_after ha Small.againBlock (by decide +kernel)
  have happ := appended_of_applyBlock ha hok
  have happ' := appended_of_applyBlock hb hok'
  have htx : Small.payBlock.transactions = [] ++ Small.pay :: [] := rfl
  obtain ⟨hreceipt, hindex⟩ := happ.lookup_of_last htx hr (by decide) (by simp [NotIn])
  refine ⟨a, rs, r, b, rs', ha, hok, hr, hs,
    ⟨congrArg Except.ok hreceipt, congrArg Except.ok hindex⟩, hb, hok', ?_⟩
  rintro ⟨-, hloc⟩
  obtain ⟨i, hi⟩ := happ'.txIndex_of_mem (h := Small.pay.hash)
    fun hnot => hnot Small.pay (List.mem_singleton.mpr rfl) rfl
  have hsome : b.state.storage.txIndex.lookup Small.pay.hash = some (1, 0) := Except.ok.inj hloc
  have hplace : Small.againBlock.header.number = 1 :=
    congrArg Prod.fst (Option.some.inj (hi.symm.trans hsome))
  revert hplace
  decide +kernel

end Rustchain.Consensus
