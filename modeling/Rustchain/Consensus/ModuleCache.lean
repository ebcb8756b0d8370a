import Rustchain.Consensus.Production

/-! # The module cache

A call takes the module of a contract from the cache, unchecked, or compiles the stored code, which
is checked first. The cache keeps what deployments compiled that failed later, and it is empty after
a restart. None of this can be seen: the code of every contract account is stored under its hash and
passes the checks, and under that hash the cache has nothing but what this code compiles to
(`moduleCache_transparent`). -/

namespace Rustchain.Consensus

open Rustchain.Core Storage Vm Lib.Machine Lib.Maps Lib.Partial Lib.Simulation Lib.Runs Lib.Checks

/-! ### Code that passes the checks -/

/-- What of `codes` passes the checks and compiles. -/
def compilable (W : Wasmtime) (cfg : VmConfig) (codes : Set Bytes) : Set Bytes :=
  {code | code ∈ codes ∧ ∃ m, compileFresh W cfg code = .ok m}

section
variable {P : Primitives} {W : Wasmtime} {cfg : VmConfig} {codes : Set Bytes}

theorem length_le_of_compiles {code : Bytes} {m : W.Module} (h : compileFresh W cfg code = .ok m) :
    code.length ≤ cfg.maxCodeSize := by
  obtain ⟨_, hvalid, -⟩ := bind_eq_ok_iff.mp h
  unfold validateModule at hvalid
  split_ifs at hvalid with hlen
  exact Nat.not_lt.mp hlen

theorem Coded.mono {codes' : Set Bytes} {d : Database} {t : Table Address Account}
    (h : Coded P codes d t) (hsub : codes ⊆ codes') : Coded P codes' d t := by
  intro a k hk
  obtain ⟨code, hcode, hrest⟩ := h a k hk
  exact ⟨code, hsub hcode, hrest⟩

theorem coded_of_compilable {d : Database} {t : Table Address Account}
    (h : Coded P (compilable W cfg codes) d t) : Coded P codes d t := h.mono fun _ hc => hc.1

/-! ### One transaction -/

section
variable {ord : HashOrders} {block : Block} {i : ℕ} {stx : SignedTransaction}
  {l l' : Loop W.Module Database}

theorem executeTx_invalid (hinj : Set.InjOn P.blake3 codes)
    (ht : stx.transaction.txType = .contractDeploy) (hcode : stx.transaction.data ∈ codes)
    {e : VmError} (he : compileFresh W cfg stx.transaction.data = .error e)
    (hl : Coherent P W cfg codes l.moduleCache)
    (h : Exec.executeTx P W cfg ord block i stx l = some ((), l')) :
    l'.storage.contracts = l.storage.contracts ∧ CodeChange none l.accounts l'.accounts := by
  by_cases hp : Exec.Passes l stx
  · obtain ⟨x, o, l1, hrun, rfl⟩ := Exec.executeTx_run P W cfg ord hp h
    unfold Exec.executeType at hrun
    rw [ht] at hrun
    obtain ⟨cache, -, hdeploy⟩ := executeDeploy_invalid hinj hcode he block ord stx.sender
      (Exec.prepay stx.transaction (accountOf l.accounts stx.sender)).val
      (l := Exec.entered l stx) hl
    cases hdeploy.symm.trans hrun
    have hkept : CodeChange none l.accounts (Exec.entered l stx).accounts := fun a => .inl rfl
    exact ⟨rfl, Exec.codeChange_finished hkept
      (Exec.prepay_codeHash stx.transaction (accountOf l.accounts stx.sender))
      stx.transaction.gasLimit (receiptOf P block i stx
        { status := .failure e.display, gasUsed := stx.transaction.gasLimit })⟩
  · obtain ⟨msg, ov, hskip⟩ := Exec.executeTx_skip P W cfg ord block i hp
    cases h.symm.trans hskip
    exact ⟨rfl, fun a => .inl rfl⟩

/-- **The code of contract accounts passes the checks** after a transaction if it did before: what
does not pass is not deployed. -/
theorem Coded.executeTx (h : Coded P (compilable W cfg codes) l.storage l.accounts)
    (hinj : Set.InjOn P.blake3 codes) (hl : Coherent P W cfg codes l.moduleCache)
    (hd : stx.transaction.txType = .contractDeploy → stx.transaction.data ∈ codes)
    (hrun : Exec.executeTx P W cfg ord block i stx l = some ((), l')) :
    Coded P (compilable W cfg codes) l'.storage l'.accounts := by
  by_cases hbad : stx.transaction.txType = .contractDeploy ∧
      ∃ e, compileFresh W cfg stx.transaction.data = .error e
  · obtain ⟨ht, e, he⟩ := hbad
    obtain ⟨hc, hchange⟩ := executeTx_invalid hinj ht (hd ht) he hl hrun
    intro a k hk
    rw [(hchange a).resolve_right fun hn => hn.1 rfl] at hk
    obtain ⟨code, hcode, hh, hlookup⟩ := h a k hk
    exact ⟨code, hcode, hh, by rw [hc, hlookup]⟩
  · refine h.codeStep (Exec.executeTx_codeStep hrun) fun ht => ⟨hd ht, ?_⟩
    cases hm : compileFresh W cfg stx.transaction.data with
    | ok m => exact ⟨m, rfl⟩
    | error e => exact absurd ⟨ht, e, hm⟩ hbad

theorem CodeKnown.executeTx {codes' : Set Bytes} {k : Blake3Hash} (hinj : Set.InjOn P.blake3 codes)
    (hsub : codes' ⊆ codes)
    (hd : stx.transaction.txType = .contractDeploy → stx.transaction.data ∈ codes)
    (hrun : Exec.executeTx P W cfg ord block i stx l = some ((), l'))
    (h : CodeKnown P codes' l.storage k) : CodeKnown P codes' l'.storage k := by
  obtain ⟨code, hcode, rfl, hlookup⟩ := h
  refine ⟨code, hcode, rfl, ?_⟩
  rcases Exec.executeTx_codeStep hrun with ⟨hc, -⟩ | ⟨ht, hc, -⟩
  · rw [hc, hlookup]
  · rw [hc]
    by_cases hk : P.blake3 code = P.blake3 stx.transaction.data
    · rw [hk, Finmap.lookup_insert, hinj (hsub hcode) (hd ht) hk]
    · rw [Finmap.lookup_insert_of_ne _ hk, hlookup]

end

/-! ### The loop -/

section
variable {ord : ℕ → HashOrders} {block : Block} {txs : List SignedTransaction} {i : ℕ}
  {s : ChainState Database} {cache : HashMap Blake3Hash W.Module} {l : Loop W.Module Database}

/-- **The transactions of a block** keep the code of contract accounts checked and the cache
coherent, successful or not. -/
theorem cached_executeTxs (hinj : Set.InjOn P.blake3 codes)
    (hcoded : Coded P (compilable W cfg codes) s.storage s.storage.accounts)
    (hcache : Coherent P W cfg codes cache) (hd : DeploysFrom codes txs)
    (hl : Exec.executeTxs P W cfg ord block i txs (s.toLoop cache) = some ((), l)) :
    Coded P (compilable W cfg codes) l.storage l.accounts ∧
      Coherent P W cfg codes l.moduleCache := by
  let I := fun l : Loop W.Module Database =>
    CodedTwin P W cfg codes (fun _ _ => True) s.storage s.storage l l ∧
      Coded P (compilable W cfg codes) l.storage l.accounts
  have hstart : I (s.toLoop cache) :=
    ⟨(SameLedger.refl s).codedTwin (coded_of_compilable hcoded) hcache hcache trivial,
      by rw [Loop.accounts_toLoop]; exact hcoded⟩
  have hend : I l := by
    refine Exec.keeps_executeTxs (R := fun l l' => I l → I l') (fun _ h => h)
      (fun _ _ _ h1 h2 h => h2 (h1 h)) ?_ _ _ _ hl hstart
    rintro stx hstx n t _ t' ht ⟨htwin, hcoded⟩
    have hagrees : Agrees W cfg codes s.storage s.storage block block stx :=
      (SameLedger.refl s).agrees rfl (hd stx hstx)
    obtain ⟨_, t'', ht'', -, htwin'⟩ := (twin_executeTx hinj (blockFree_of_same W trivial)
      (fun _ => ⟨rfl, rfl, rfl⟩) hagrees fun _ _ _ _ => trivial).matched htwin ht
    cases ht.symm.trans ht''
    exact ⟨htwin', hcoded.executeTx hinj htwin.cacheLeft (hd stx hstx) ht⟩
  exact ⟨hend.2, hend.1.cacheLeft⟩

end

theorem CodeKnown.executeTxs {codes' : Set Bytes} {k : Blake3Hash}
    {ord : ℕ → HashOrders} {block : Block} {txs : List SignedTransaction} {i : ℕ}
    {l l' : Loop W.Module Database} (hinj : Set.InjOn P.blake3 codes) (hsub : codes' ⊆ codes)
    (hd : DeploysFrom codes txs)
    (hl : Exec.executeTxs P W cfg ord block i txs l = some ((), l'))
    (h : CodeKnown P codes' l.storage k) : CodeKnown P codes' l'.storage k :=
  Exec.keeps_executeTxs (R := fun l l' => CodeKnown P codes' l.storage k →
      CodeKnown P codes' l'.storage k) (fun _ h => h) (fun _ _ _ h1 h2 h => h2 (h1 h))
    (fun stx hstx _ _ _ _ ht hk => CodeKnown.executeTx hinj hsub (hd stx hstx) ht hk) _ _ _ hl h

/-! ### Calls -/

/-- What a call of the engine can be told by: its result, the context, and the database. -/
def seen {M α : Type} (x : Option (α × VmState M Database)) :
    Option (α × ExecutionContext × Database) :=
  x.map fun p => (p.1, p.2.context, p.2.storage)

theorem eq_of_sameContext {c c' : ExecutionContext} (h : SameContext True c c') : c = c' := by
  obtain ⟨hnumber, htimestamp, hchain⟩ := h.block trivial
  obtain ⟨h1, h2, h3, h4, h5, h6, h7, h8, -⟩ := h
  cases c
  cases c'
  simp only at h1 h2 h3 h4 h5 h6 h7 h8 hnumber htimestamp hchain
  subst h1 h2 h3 h4 h5 h6 h7 h8 hnumber htimestamp hchain
  rfl

theorem seen_callContract (hinj : Set.InjOn P.blake3 codes) {code : Bytes} (hc : code ∈ codes)
    {d : Database} (hd : d.contracts.lookup (P.blake3 code) = some code)
    {cache cache' : HashMap Blake3Hash W.Module} (hcache : Coherent P W cfg codes cache)
    (hcache' : Coherent P W cfg codes cache') (function : String) (args : Bytes)
    (context : ExecutionContext) (overflow : Bool) :
    seen (callContract P W cfg (P.blake3 code) function args ⟨context, d, cache, overflow⟩) =
      seen (callContract P W cfg (P.blake3 code) function args ⟨context, d, cache', overflow⟩) := by
  have hsim : Sim Never (TwinAt P W cfg codes True d d fun _ => True) (Twin P W cfg codes True d d)
      Eq (callContract P W cfg (P.blake3 code) function args)
      (callContract P W cfg (P.blake3 code) function args) :=
    twin_callContract ⟨rfl, rfl, fun _ _ => rfl⟩ (blockFree_of_same W trivial) hinj hc hd function
      args
  have htwin : ∀ {c c' : HashMap Blake3Hash W.Module}, Coherent P W cfg codes c →
      Coherent P W cfg codes c' → TwinAt P W cfg codes True d d (fun _ => True)
        ⟨context, d, c, overflow⟩ ⟨context, d, c', overflow⟩ := fun h h' =>
    ⟨⟨.refl True context, rfl, rfl, h, h'⟩, trivial⟩
  cases hx : callContract P W cfg (P.blake3 code) function args ⟨context, d, cache, overflow⟩ with
  | some p =>
    obtain ⟨r, t', ht', hr, hT⟩ := hsim.matched (htwin hcache hcache') hx
    rw [ht']
    show some (p.1, p.2.context, p.2.storage) = some (r, t'.context, t'.storage)
    rw [hr, eq_of_sameContext hT.context, hT.left, hT.right]
  | none =>
    cases hy : callContract P W cfg (P.blake3 code) function args
        ⟨context, d, cache', overflow⟩ with
    | none => rfl
    | some p =>
      obtain ⟨r, t', ht', -⟩ := hsim.matched (htwin hcache' hcache) hy
      cases hx.symm.trans ht'

end

/-- **The module cache cannot be seen**: the code of every contract account is stored under its hash
and is not too long, and a call of the contract goes as it does with an empty cache. -/
def CacheTransparent (P : Primitives) (W : Wasmtime) (cfg : VmConfig) (d : Database)
    (accounts : Table Address Account) (cache : HashMap Blake3Hash W.Module) : Prop :=
  ∀ a h, (accountOf accounts a).codeHash = some h →
    ∃ code, d.contracts.lookup h = some code ∧ P.blake3 code = h ∧
      code.length ≤ cfg.maxCodeSize ∧
      ∀ function args context overflow,
        seen (callContract P W cfg h function args ⟨context, d, cache, overflow⟩) =
          seen (callContract P W cfg h function args ⟨context, d, ∅, overflow⟩)

theorem cacheTransparent_of_coded {P : Primitives} {W : Wasmtime} {cfg : VmConfig}
    {codes : Set Bytes} (hinj : Set.InjOn P.blake3 codes) {d : Database}
    {accounts : Table Address Account} (hcoded : Coded P (compilable W cfg codes) d accounts)
    {cache : HashMap Blake3Hash W.Module} (hcache : Coherent P W cfg codes cache) :
    CacheTransparent P W cfg d accounts cache := by
  intro a h hh
  obtain ⟨code, ⟨hc, m, hm⟩, rfl, hlookup⟩ := hcoded a h hh
  exact ⟨code, hlookup, rfl, length_le_of_compiles hm,
    seen_callContract hinj hc hlookup hcache coherent_empty⟩

/-! ### The life of a node -/

namespace ConsensusEngine

variable {P : Primitives} {W : Wasmtime} {cfg : VmConfig} {codes : Set Bytes}

/-- What happens to a node: calls of its engine, restarts, and restarts after it stopped while it
applied a block, with some of its transactions executed. -/
inductive Event where
  | call (op : Op)
  | restart (config : ConsensusConfig) (g : GenesisConfig)
  | crash (su : Surroundings) (block : Block) (n : ℕ) (config : ConsensusConfig)
      (g : GenesisConfig)

/-- The step relation of a node with its process: a new process has an empty cache. -/
def Lives (cfg : VmConfig) (e : ConsensusEngine P W Database) :
    Event → ConsensusEngine P W Database → Prop
  | .call op, e' => Call cfg e op e'
  | .restart config g, e' => ∃ d, new P W config g e.chainState.storage ∅ = (.ok (some e'), d)
  | .crash su block n config g, e' => Extends P e.chainState block ∧ ∃ l d,
    Exec.executeTxs P W cfg su.ord block 0 (block.transactions.take n)
      (e.chainState.toLoop e.moduleCache) = some ((), l) ∧
    new P W config g l.storage ∅ = (.ok (some e'), d)

/-- What the blocks of an event deploy is in `codes`. -/
def Brings (codes : Set Bytes) (e : ConsensusEngine P W Database) : Event → Prop
  | .call op => Deploys codes e op
  | .restart _ _ => True
  | .crash _ block _ _ _ => DeploysFrom codes block.transactions

/-- **What holds of a node at any time**: the code of contract accounts passes the checks, and the
cache is coherent. -/
structure Vetted (cfg : VmConfig) (codes : Set Bytes) (e : ConsensusEngine P W Database) :
    Prop where
  node : NodeInv e.chainState
  coded : Coded P (compilable W cfg codes) e.chainState.storage e.chainState.storage.accounts
  cache : Coherent P W cfg codes e.moduleCache

theorem deploysFrom_take {txs : List SignedTransaction} (h : DeploysFrom codes txs) (n : ℕ) :
    DeploysFrom codes (txs.take n) := fun stx hstx => h stx (List.mem_of_mem_take hstx)

variable {e : ConsensusEngine P W Database}

theorem vetted_new {config : ConsensusConfig} {g : GenesisConfig} {s : ChainState Database}
    {d : Database} (hs : NodeInv s)
    (hcoded : Coded P (compilable W cfg codes) s.storage s.storage.accounts)
    (h : new P W config g s.storage ∅ = (.ok (some e), d)) : e.Vetted cfg codes := by
  obtain ⟨s', hs', rfl⟩ := new_ok h
  refine ⟨nodeInv_fromGenesis P hs' hs.keyed, ?_, coherent_empty⟩
  show Coded P (compilable W cfg codes) s'.storage s'.storage.accounts
  rw [storage_restart P hs hs']
  exact hcoded

theorem vetted_applied (h : e.Vetted cfg codes) (hinj : Set.InjOn P.blake3 codes)
    {su : Surroundings} {block : Block} (hd : DeploysFrom codes block.transactions)
    {a : Applied W.Module Database} {rs : List TransactionReceipt}
    (ha : applyBlock P W cfg su.ord e.moduleCache e.chainState block = some a)
    (hok : a.result = .ok rs) :
    Coded P (compilable W cfg codes) a.state.storage a.state.storage.accounts ∧
      Coherent P W cfg codes a.cache := by
  obtain ⟨-, -, l, hl, rfl⟩ := applyBlock_ok ha hok
  obtain ⟨hcoded, hcache⟩ := cached_executeTxs hinj h.coded h.cache hd hl
  refine ⟨?_, hcache⟩
  have hk : Keyed l.accounts :=
    (Exec.executeTxs_effect hl).keyed (by rw [Loop.accounts_toLoop]; exact h.node.keyed)
  have hacc : (committed P (su.ord block.transactions.length) e.chainState block l
      ).storage.accounts = l.accounts := accounts_commitBlock hk _ block
  show Coded P (compilable W cfg codes) _ (committed P (su.ord block.transactions.length)
    e.chainState block l).storage.accounts
  rw [hacc]
  exact hcoded

theorem vetted_lives (hinj : Set.InjOn P.blake3 codes) {e e' : ConsensusEngine P W Database}
    {event : Event} (h : e.Vetted cfg codes) (hd : Brings codes e event)
    (hstep : Lives cfg e event e') : e'.Vetted cfg codes := by
  cases event with
  | call op =>
    have hkeeps : NodeInv e'.chainState ∧
        Coded P (compilable W cfg codes) e'.chainState.storage e'.chainState.storage.accounts ∧
        Coherent P W cfg codes e'.moduleCache := by
      refine Call.keeps (I := fun s cache => NodeInv s ∧
        Coded P (compilable W cfg codes) s.storage s.storage.accounts ∧
        Coherent P W cfg codes cache) hstep ⟨h.node, h.coded, h.cache⟩ ?_ fun v =>
          ⟨⟨h.node.keyed, h.node.jailFree, h.node.hasGenesis⟩, h.coded, h.cache⟩
      intro su block a rs hblock ha hok params now
      obtain ⟨hcoded, hcache⟩ := vetted_applied h hinj (hd su block hblock) ha hok
      have hnode : NodeInv a.state := nodeInv_applied P h.node ha hok
      rw [maybeAdvanceEpoch_eq]
      split_ifs
      · exact ⟨⟨hnode.keyed, jailFree_nextEpoch hnode.jailFree, hnode.hasGenesis⟩, hcoded, hcache⟩
      · exact ⟨hnode, hcoded, hcache⟩
    exact ⟨hkeeps.1, hkeeps.2.1, hkeeps.2.2⟩
  | restart config g =>
    obtain ⟨d, hnew⟩ := hstep
    exact vetted_new h.node h.coded hnew
  | crash su block n config g =>
    obtain ⟨-, l, d, hl, hnew⟩ := hstep
    -- the accounts are those before the block, and code was only added
    have hchain := (Exec.executeTxs_effect hl).chain
    have haccounts : l.storage.accounts = e.chainState.storage.accounts := by rw [hchain]; rfl
    have hgenesis : l.storage.genesisHash = e.chainState.storage.genesisHash := by rw [hchain]; rfl
    have hnode : NodeInv { e.chainState with storage := l.storage } :=
      ⟨by rw [haccounts]; exact h.node.keyed, h.node.jailFree,
        by rw [hgenesis]; exact h.node.hasGenesis⟩
    refine vetted_new (s := { e.chainState with storage := l.storage }) hnode ?_ hnew
    intro a k hk
    rw [haccounts] at hk
    exact CodeKnown.executeTxs hinj (fun _ hc => hc.1) (deploysFrom_take hd n) hl (h.coded a k hk)

theorem vetted_run (hinj : Set.InjOn P.blake3 codes) {e₀ e : ConsensusEngine P W Database}
    {events : List Event} (h : e₀.Vetted cfg codes)
    (hrun : Run (Lives cfg) (Brings codes) e₀ events e) : e.Vetted cfg codes :=
  hrun.invariant (I := Vetted cfg codes) h fun _ _ _ ht hd hstep => vetted_lives hinj ht hd hstep

theorem vetted_first {config : ConsensusConfig} {g : GenesisConfig} {d : Database}
    (h : new P W config g .empty ∅ = (.ok (some e), d)) : e.Vetted cfg codes := by
  obtain ⟨s, hs, rfl⟩ := new_ok h
  have hreplica : ReplicaInv P (compilable W cfg codes) s := replicaInv_started ⟨d, hs⟩
  exact ⟨hreplica.toNodeInv, hreplica.coded, coherent_empty⟩

end ConsensusEngine

/-- **The module cache is transparent** in every state that a node gets to, through blocks with any
transactions, through restarts and through stops within a block, and before every transaction of a
block that it applies then. -/
theorem moduleCache_transparent {P : Primitives} {W : Wasmtime} {cfg : VmConfig}
    {codes : Set Bytes} (hinj : Set.InjOn P.blake3 codes) {config : ConsensusConfig}
    {g : GenesisConfig} {d : Database} {e₀ e : ConsensusEngine P W Database}
    {events : List ConsensusEngine.Event}
    (hnew : ConsensusEngine.new P W config g .empty ∅ = (.ok (some e₀), d))
    (hrun : Run (ConsensusEngine.Lives cfg) (ConsensusEngine.Brings codes) e₀ events e) :
    CacheTransparent P W cfg e.chainState.storage e.chainState.storage.accounts e.moduleCache ∧
      ∀ (ord : ℕ → HashOrders) (block : Block) (n : ℕ) (l : Loop W.Module Database),
        DeploysFrom codes block.transactions →
        Exec.executeTxs P W cfg ord block 0 (block.transactions.take n)
          (e.chainState.toLoop e.moduleCache) = some ((), l) →
        CacheTransparent P W cfg l.storage l.accounts l.moduleCache := by
  have hvetted : e.Vetted cfg codes :=
    ConsensusEngine.vetted_run hinj (ConsensusEngine.vetted_first hnew) hrun
  refine ⟨cacheTransparent_of_coded hinj hvetted.coded hvetted.cache, ?_⟩
  intro ord block n l hd hl
  obtain ⟨hcoded, hcache⟩ := cached_executeTxs hinj hvetted.coded hvetted.cache
    (ConsensusEngine.deploysFrom_take hd n) hl
  exact cacheTransparent_of_coded hinj hcoded hcache

/-- After a deployment on a new node the module is in the cache, and that cannot be seen. -/
theorem moduleCache_transparent_deploy : ∃ l,
    Exec.executeTxs .small .small .default (fun _ => .listed) Small.deployBlock 0
      (Small.deployBlock.transactions.take 1) (Small.start.toLoop ∅) = some ((), l) ∧
    (accountOf l.accounts (deployAddress .small ((KeyPair.small 2).address .small) 1)).codeHash =
      some (Primitives.small.blake3 Vm.Small.zeroCode) ∧
    (l.moduleCache.lookup (Primitives.small.blake3 Vm.Small.zeroCode)).isSome = true ∧
    CacheTransparent .small .small .default l.storage l.accounts l.moduleCache := by
  have hcheck : (Exec.executeTxs .small .small .default (fun _ => .listed) Small.deployBlock 0
      (Small.deployBlock.transactions.take 1) (Small.start.toLoop ∅)).map (fun p => decide
        ((accountOf p.2.accounts
            (deployAddress .small ((KeyPair.small 2).address .small) 1)).codeHash =
            some (Primitives.small.blake3 Vm.Small.zeroCode) ∧
          (p.2.moduleCache.lookup (Primitives.small.blake3 Vm.Small.zeroCode)).isSome = true)) =
      some true := by decide +kernel
  obtain ⟨⟨_, l⟩, hl, hstate⟩ := Option.map_eq_some_iff.mp hcheck
  obtain ⟨hcode, hcached⟩ := of_decide_eq_true hstate
  obtain ⟨d, hstart⟩ := Small.started
  have hnew : ConsensusEngine.new .small .small Small.config Small.genesis .empty ∅ =
      (.ok (some Small.engine), d) := by
    unfold ConsensusEngine.new
    rw [hstart]
    rfl
  have hdeploys : DeploysFrom {Vm.Small.zeroCode} Small.deployBlock.transactions := by
    intro stx hstx _
    obtain rfl := List.mem_singleton.mp hstx
    rfl
  exact ⟨l, hl, hcode, hcached,
    (moduleCache_transparent (Set.injOn_singleton _ _) hnew .nil).2 _ _ 1 l hdeploys hl⟩

end Rustchain.Consensus
