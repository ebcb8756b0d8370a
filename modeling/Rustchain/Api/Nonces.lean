import Rustchain.Api.Wallet
import Rustchain.Consensus.EngineRuns
import Rustchain.Consensus.PoolIndex
import Rustchain.Consensus.Replay

/-! # Nonces of wallet requests

A wallet request takes its nonce from the database, which knows nothing of the pool. Until the next
block, all requests of one account get the same nonce, and of their transactions at most one is ever
executed. -/

namespace Rustchain.Api

open Rustchain.Core Storage Vm Consensus Lib.Runs

variable {P : Primitives} {W : Wasmtime} {C : WalletCrates}

/-! ### One request -/

/-- The nonce that a request of an account gets. -/
def accountNonce (e : ConsensusEngine P W Database) (a : Address) : ℕ :=
  (accountOf e.chainState.storage.accounts a).nonce

theorem getNonce_database (a : Address) (e : ConsensusEngine P W Database) :
    getNonce a e = (.ok (accountNonce e a), e) := by
  unfold getNonce accountNonce accountOf getAccount
  rw [read_database]
  cases e.chainState.storage.accounts.lookup a with
  | none => rfl
  | some account => rfl

def signedFor (t : Clocks) (e : ConsensusEngine P W Database) (keypair : KeyPair) (p : Payload) :
    SignedTransaction :=
  .new P (p.transaction e.config.chainId (accountNonce e (keypair.address P)) (keypair.address P)
    t.timestamp) keypair

/-- **What a request can do**: it is refused and nothing changes, or its transaction is pooled. -/
inductive Submission (t : Clocks) (e : ConsensusEngine P W Database) (req : WalletRequest C) :
    Except ApiError WalletTxResponse × ConsensusEngine P W Database → Prop
  | refused {err : ApiError} : Submission t e req (.error err, e)
  | accepted {keypair : KeyPair} {p : Payload} {pool : TransactionPool P} {resp : WalletTxResponse}
      (hread : req.read = .ok (keypair, p))
      (hins : e.txPool.insert (signedFor t e keypair p) t.addedAt = .ok pool) :
      Submission t e req (.ok resp, { e with txPool := pool })

theorem handle_cases (req : WalletRequest C) (t : Clocks) (e : ConsensusEngine P W Database) :
    Submission t e req (req.handle t e) := by
  rw [WalletRequest.handle_eq_submit]
  cases hread : req.read with
  | error err => exact .refused
  | ok r =>
    obtain ⟨keypair, p⟩ := r
    dsimp only [submit]
    rw [getNonce_database]
    dsimp only [signAndSubmit, ConsensusEngine.onTransactionReceived]
    cases (SignedTransaction.verify P _) with
    | error err => exact .refused
    | ok u =>
      dsimp only
      cases hins : e.txPool.insert (signedFor t e keypair p) t.addedAt with
      | error err =>
        unfold signedFor at hins
        rw [hins]
        exact .refused
      | ok pool =>
        have hins' := hins
        unfold signedFor at hins
        rw [hins]
        exact .accepted hread hins'

/-! ### Requests between two blocks -/

/-- What reaches a node between two blocks: wallet requests, transactions and votes. -/
inductive Event (C : WalletCrates) where
  | wallet (req : WalletRequest C) (t : Clocks)
  | transaction (tx : SignedTransaction) (now : ℕ)
  | vote (v : FinalityVote)

/-- A step between two blocks, with the record of the transactions that wallet requests have put
into the pool. -/
def SessionStep (s : ConsensusEngine P W Database × List SignedTransaction) :
    Event C → ConsensusEngine P W Database × List SignedTransaction → Prop
  | .wallet req t, s' =>
    (∃ err, req.handle t s.1 = (.error err, s'.1) ∧ s'.2 = s.2) ∨
    ∃ keypair p resp, req.read = .ok (keypair, p) ∧ req.handle t s.1 = (.ok resp, s'.1) ∧
      s'.2 = s.2 ++ [signedFor t s.1 keypair p]
  | .transaction tx now, s' => (s.1.onTransactionReceived tx now).engine = s'.1 ∧ s'.2 = s.2
  | .vote v, s' => (s.1.onVoteReceived v).engine = s'.1 ∧ s'.2 = s.2

/-- Both pools hold what the first one holds. -/
def Grows (pool pool' : TransactionPool P) : Prop :=
  ∀ h, (pool.pending.lookup h).isSome → (pool'.pending.lookup h).isSome

theorem grows_insert {pool pool' : TransactionPool P} {tx : SignedTransaction} {now : ℕ}
    (h : pool.insert tx now = .ok pool') :
    pool.pending.lookup tx.hash = none ∧ (pool'.pending.lookup tx.hash).isSome ∧
      Grows pool pool' := by
  obtain ⟨hv, -, -, hnew, rfl⟩ := TransactionPool.insert_ok h
  have hlook : (pool.add tx now hv).pending.lookup tx.hash =
      some ⟨tx, now, tx.transaction.gasPrice⟩ := AList.lookup_insert _
  refine ⟨hnew, by rw [hlook]; rfl, fun k hk => ?_⟩
  by_cases hkt : k = tx.hash
  · rw [hkt, hlook]
    rfl
  · have hother : (pool.add tx now hv).pending.lookup k = pool.pending.lookup k :=
      AList.lookup_insert_ne hkt
    rw [hother]
    exact hk

/-- **A session** that began with the engine `e`: the chain is where it was, the recorded
transactions carry the nonces of their accounts and are pairwise distinct, and all of them are in
the pool. -/
structure SessionInv (e : ConsensusEngine P W Database)
    (s : ConsensusEngine P W Database × List SignedTransaction) : Prop where
  chain : s.1.chainState = e.chainState
  nonces : ∀ t ∈ s.2, t.transaction.nonce = accountNonce e t.sender
  pending : ∀ t ∈ s.2, (s.1.txPool.pending.lookup t.hash).isSome
  nodup : s.2.Nodup

variable {e : ConsensusEngine P W Database}
  {s s' : ConsensusEngine P W Database × List SignedTransaction}

theorem SessionInv.quiet (hi : SessionInv e s) (hchain : s'.1.chainState = s.1.chainState)
    (hgrows : Grows s.1.txPool s'.1.txPool) (hl : s'.2 = s.2) : SessionInv e s' := by
  refine ⟨hchain.trans hi.chain, ?_, fun t ht => ?_, ?_⟩
  · rw [hl]
    exact hi.nonces
  · rw [hl] at ht
    exact hgrows _ (hi.pending t ht)
  · rw [hl]
    exact hi.nodup

theorem SessionInv.accept (hi : SessionInv e s) {t : Clocks} {keypair : KeyPair} {p : Payload}
    {pool : TransactionPool P}
    (hins : s.1.txPool.insert (signedFor t s.1 keypair p) t.addedAt = .ok pool) :
    SessionInv e ({ s.1 with txPool := pool }, s.2 ++ [signedFor t s.1 keypair p]) := by
  obtain ⟨hnew, hin, hgrows⟩ := grows_insert hins
  have hnonce : (signedFor t s.1 keypair p).transaction.nonce =
      accountNonce e (signedFor t s.1 keypair p).sender := by
    show accountNonce s.1 (keypair.address P) = accountNonce e (keypair.address P)
    unfold accountNonce
    rw [hi.chain]
  refine ⟨hi.chain, fun u hu => ?_, fun u hu => ?_, ?_⟩
  · rcases List.mem_append.mp hu with hu | hu
    · exact hi.nonces u hu
    · rw [List.mem_singleton.mp hu]
      exact hnonce
  · rcases List.mem_append.mp hu with hu | hu
    · exact hgrows _ (hi.pending u hu)
    · rw [List.mem_singleton.mp hu]
      exact hin
  · refine List.nodup_append.mpr ⟨hi.nodup, List.nodup_singleton _, fun u hu v hv => ?_⟩
    -- a recorded transaction is in the pool, and the new one was not
    rintro rfl
    have hold := hi.pending u hu
    rw [List.mem_singleton.mp hv, hnew] at hold
    cases hold

theorem sessionInv_step {ev : Event C} (hi : SessionInv e s) (hs : SessionStep s ev s') :
    SessionInv e s' := by
  have hrefl : Grows s.1.txPool s.1.txPool := fun _ h => h
  obtain ⟨e', l'⟩ := s'
  cases ev with
  | wallet req t =>
    have hcases := handle_cases req t s.1
    rcases hs with ⟨err, hhandle, hl⟩ | ⟨keypair, p, resp, hread, hhandle, hl⟩
    · rw [hhandle] at hcases
      dsimp only at hcases
      cases hcases
      exact hi.quiet rfl hrefl hl
    · rw [hhandle] at hcases
      dsimp only at hcases hl
      subst hl
      cases hcases with
      | accepted hread' hins =>
        obtain ⟨rfl, rfl⟩ := Prod.mk.inj (Except.ok.inj (hread.symm.trans hread'))
        exact hi.accept hins
  | transaction tx now =>
    obtain ⟨he, hl⟩ := hs
    dsimp only [ConsensusEngine.onTransactionReceived] at he
    cases hins : s.1.txPool.insert tx now with
    | error err =>
      rw [hins] at he
      refine hi.quiet ?_ ?_ hl
      · rw [← he]
      · rw [← he]
        exact hrefl
    | ok pool =>
      rw [hins] at he
      refine hi.quiet ?_ ?_ hl
      · rw [← he]
      · rw [← he]
        exact (grows_insert hins).2.2
  | vote v =>
    obtain ⟨he, hl⟩ := hs
    have hengine : (s.1.onVoteReceived v).engine =
        { s.1 with finality := (s.1.finality.addVote P v).2 } := by
      unfold ConsensusEngine.onVoteReceived
      dsimp only
      split <;> rfl
    rw [hengine] at he
    refine hi.quiet ?_ ?_ hl
    · rw [← he]
    · rw [← he]
      exact hrefl

theorem sessionInv_of_run {events : List (Event C)} {e' : ConsensusEngine P W Database}
    {l : List SignedTransaction} (hrun : Run SessionStep Free (e, []) events (e', l)) :
    SessionInv e (e', l) := by
  refine hrun.invariant (I := SessionInv e) ⟨rfl, by simp, by simp, List.nodup_nil⟩ ?_
  intro s ev s' hi _ hs
  exact sessionInv_step hi hs

/-! ### The nonces of one account -/

/-- The transactions carry consecutive nonces from `n` on. -/
def Consecutive (n : ℕ) (l : List SignedTransaction) : Prop :=
  l.map (·.transaction.nonce) = (List.range l.length).map (n + ·)

theorem consecutive_iff_of_equal {n : ℕ} {l : List SignedTransaction}
    (h : ∀ t ∈ l, t.transaction.nonce = n) : Consecutive n l ↔ l.length ≤ 1 := by
  constructor
  · intro hc
    by_contra hlen
    have hsecond := congrArg (fun l : List ℕ => l[1]?) hc
    have hlt : 1 < l.length := by omega
    simp only [List.getElem?_map, List.getElem?_eq_getElem hlt, Option.map_some,
      List.getElem?_range hlt, Option.some.injEq] at hsecond
    have hequal := h _ (List.getElem_mem hlt)
    omega
  · intro hlen
    cases l with
    | nil => rfl
    | cons t rest =>
      have hrest : rest = [] := by
        rw [← List.length_eq_zero_iff]
        simp only [List.length_cons] at hlen
        omega
      subst hrest
      have ht := h t List.mem_cons_self
      simp [Consecutive, ht]

theorem length_le_one_of_equal {α : Type} {l : List α} (hn : l.Nodup)
    (h : ∀ x ∈ l, ∀ y ∈ l, x = y) : l.length ≤ 1 := by
  cases l with
  | nil => exact Nat.zero_le 1
  | cons x rest =>
    cases rest with
    | nil => exact le_rfl
    | cons y rest =>
      have hxy := h x (by simp) y (by simp)
      rw [hxy] at hn
      simp at hn

/-- **Wallet nonces**: between two blocks, all wallet requests of an account get the nonce of the
account, and each of the transactions would pass the checks of the next block if the account can pay
for it. So their nonces are consecutive if and only if there is at most one request, and at most one
of the transactions is executed in any run of the chain. -/
theorem wallet_nonces_iff (P : Primitives) (W : Wasmtime) (C : WalletCrates)
    {e e' : ConsensusEngine P W Database} {events : List (Event C)} {l : List SignedTransaction}
    (hrun : Run SessionStep Free (e, []) events (e', l)) (a : Address) :
    (∀ t ∈ signedBy a l, t.transaction.nonce = accountNonce e a ∧
      ∀ cache, t.transaction.totalCost.val ≤
          (accountOf e'.chainState.storage.accounts t.sender).balance →
        Exec.Passes (e'.chainState.toLoop cache : Loop W.Module Database) t) ∧
    (Consecutive (accountNonce e a) (signedBy a l) ↔ (signedBy a l).length ≤ 1) ∧
    ∀ (cfg : VmConfig) (g : GenesisConfig) (s₀ s : ChainState Database) (ops : List (ChainOp W))
      (h : List SignedTransaction), Started P g s₀ →
      Run (RecordedStep P W cfg g) Free (s₀, []) ops (s, h) → NoContractSigns P (blocksOf ops) →
      (signedBy a h).length < 2 ^ 64 → ((signedBy a l).filter (· ∈ h)).length ≤ 1 := by
  have hi := sessionInv_of_run hrun
  have hnonce : ∀ t ∈ signedBy a l, t.transaction.nonce = accountNonce e a := by
    intro t ht
    obtain ⟨hmem, hsender⟩ := List.mem_filter.mp ht
    rw [← of_decide_eq_true hsender]
    exact hi.nonces t hmem
  refine ⟨fun t ht => ⟨hnonce t ht, fun cache hpay => ?_⟩, consecutive_iff_of_equal hnonce, ?_⟩
  · unfold Exec.Passes
    rw [Loop.accounts_toLoop, hi.nonces t (List.mem_filter.mp ht).1, accountNonce, ← hi.chain]
    exact ⟨rfl, hpay⟩
  intro cfg g s₀ s ops h h0 hchain hfree hlt
  have hcounted := (replayInv_of_run h0 hchain).counted hfree a hlt
  refine length_le_one_of_equal ((hi.nodup.filter _).filter _) fun t ht u hu => ?_
  obtain ⟨htl, hth⟩ := List.mem_filter.mp ht
  obtain ⟨hul, huh⟩ := List.mem_filter.mp hu
  refine hcounted.eq_of_nonce ?_ ?_ ((hnonce t htl).trans (hnonce u hul).symm)
  · exact List.mem_filter.mpr ⟨of_decide_eq_true hth, (List.mem_filter.mp htl).2⟩
  · exact List.mem_filter.mpr ⟨of_decide_eq_true huh, (List.mem_filter.mp hul).2⟩

/-! ### Two requests on the small chain -/

namespace Small

def crates : WalletCrates where
  Json := UInt8
  toVec j := .ok [j]
  decrypt bytes _ := match bytes with
    | [b] => .ok (.small b)
    | _ => .error "no key"
  hexError _ := "no hex"

def clocks : Clocks := ⟨0, 0⟩

def transferRequest : WalletRequest crates :=
  .transfer ⟨(2 : UInt8), "", "0x0303030303030303030303030303030303030303", "7", none, none⟩

def stakeRequest : WalletRequest crates := .stake ⟨(2 : UInt8), "", "50", none, none⟩

def transferPayload : Payload :=
  ⟨some ⟨Vector.replicate 20 3⟩, 7, .transfer, 21000, 1, []⟩

def stakePayload : Payload := ⟨none, 50, .stake, 50000, 1, []⟩

def transferred : ConsensusEngine .small .small Database :=
  (transferRequest.handle clocks Small.engine).2

def requested : List SignedTransaction :=
  [signedFor clocks Small.engine (.small 2) transferPayload] ++
    [signedFor clocks transferred (.small 2) stakePayload]

theorem session_of_ok {e : ConsensusEngine .small .small Database} {l : List SignedTransaction}
    (req : WalletRequest crates) {p : Payload} (hread : req.read = .ok (.small 2, p))
    (hok : (req.handle clocks e).1.toBool = true) :
    SessionStep (e, l) (.wallet req clocks)
      ((req.handle clocks e).2, l ++ [signedFor clocks e (.small 2) p]) := by
  cases hres : (req.handle clocks e).1 with
  | error err =>
    rw [hres] at hok
    cases hok
  | ok resp => exact .inr ⟨_, p, resp, hread, Prod.ext hres rfl, rfl⟩

end Small

/-- One request carries the nonce of the account. -/
theorem one_request_consecutive : ∃ e' l,
    Run SessionStep Free (Small.engine, [])
      ([] ++ [.wallet Small.stakeRequest Small.clocks]) (e', l) ∧
    (signedBy ((KeyPair.small 2).address .small) l).length = 1 ∧
    Consecutive 0 (signedBy ((KeyPair.small 2).address .small) l) := by
  have hstep := Small.session_of_ok (e := Small.engine) (l := []) Small.stakeRequest
    (p := Small.stakePayload) rfl (by decide +kernel)
  have hrun := Run.nil.snoc (G := Free) trivial hstep
  have hlen : (signedBy ((KeyPair.small 2).address .small)
      [signedFor Small.clocks Small.engine (.small 2) Small.stakePayload]).length = 1 := by
    decide +kernel
  exact ⟨_, _, hrun, hlen, (wallet_nonces_iff .small .small Small.crates hrun _).2.1.mpr hlen.le⟩

/-- A transfer and a stake before the next block get the same nonce, although the account could pay
for both. -/
theorem two_requests_collide : ∃ e',
    Run SessionStep Free (Small.engine, []) ([] ++ [.wallet Small.transferRequest Small.clocks] ++
      [.wallet Small.stakeRequest Small.clocks]) (e', Small.requested) ∧
    (∀ t ∈ Small.requested, t.sender = (KeyPair.small 2).address .small ∧
      t.transaction.nonce = 0) ∧
    (Small.requested.map fun t => t.transaction.totalCost.val).sum ≤
      (accountOf e'.chainState.storage.accounts ((KeyPair.small 2).address .small)).balance ∧
    ¬ Consecutive 0 Small.requested := by
  have hfirst := Small.session_of_ok (e := Small.engine) (l := []) Small.transferRequest
    (p := Small.transferPayload) rfl (by decide +kernel)
  have hsecond := Small.session_of_ok (e := Small.transferred)
    (l := [signedFor Small.clocks Small.engine (.small 2) Small.transferPayload])
    Small.stakeRequest (p := Small.stakePayload) rfl (by decide +kernel)
  have hrun := (Run.nil.snoc (G := Free) trivial hfirst).snoc trivial hsecond
  have hi := sessionInv_of_run hrun
  have hsender : ∀ t ∈ Small.requested, t.sender = (KeyPair.small 2).address .small := by
    intro t ht
    rcases List.mem_append.mp ht with ht | ht
    · rw [List.mem_singleton.mp ht]
      rfl
    · rw [List.mem_singleton.mp ht]
      rfl
  have hnonce : ∀ t ∈ Small.requested, t.transaction.nonce = 0 := by
    intro t ht
    rw [hi.nonces t ht, hsender t ht]
    decide +kernel
  refine ⟨_, hrun, fun t ht => ⟨hsender t ht, hnonce t ht⟩, ?_, fun hc => ?_⟩
  · rw [hi.chain]
    decide +kernel
  · have hlen := (consecutive_iff_of_equal hnonce).mp hc
    simp [Small.requested] at hlen

end Rustchain.Api
