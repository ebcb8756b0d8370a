import Rustchain.Bridge.Lifecycle

/-! # Paying outbound transfers

A request for an outbound transfer names a chain. The transfer keeps the name of the chain, and
`finalize_transfer` reads it back with `from_name`, which knows every chain by its name but one: for
`BNB Chain` it has other names only. So a validated transfer to that chain is never paid, and every
other one is, on its chain and with its terms (`outbound_paid_iff`). -/

namespace Rustchain.Bridge

open Rustchain.Core Lib.Maps Lib.Runs

theorem ExternalChain.fromName_name (c : ExternalChain) :
    fromName c.name = if c = .bnbChain then none else some c := by
  cases c <;> decide +kernel

/-! ### The terms of a transfer -/

/-- What was agreed on stays as it was. -/
structure SameTerms (t t' : BridgeTransfer) : Prop where
  direction : t'.direction = t.direction
  destChain : t'.destChain = t.destChain
  recipient : t'.recipient = t.recipient
  tokenSymbol : t'.tokenSymbol = t.tokenSymbol
  amount : t'.amount = t.amount
  fee : t'.fee = t.fee

theorem SameTerms.refl (t : BridgeTransfer) : SameTerms t t := ⟨rfl, rfl, rfl, rfl, rfl, rfl⟩

theorem SameTerms.trans {t u v : BridgeTransfer} (h : SameTerms t u) (h' : SameTerms u v) :
    SameTerms t v :=
  ⟨h'.direction.trans h.direction, h'.destChain.trans h.destChain,
    h'.recipient.trans h.recipient, h'.tokenSymbol.trans h.tokenSymbol,
    h'.amount.trans h.amount, h'.fee.trans h.fee⟩

theorem BridgeState.Writes.sameTerms {s s' : BridgeState} {w : Write} (h : Writes s w s')
    {id : String} {t : BridgeTransfer} (ht : s.getTransfer id = some t)
    (hw : ∀ u, w = .opened u → u.id ≠ id) :
    ∃ t', s'.getTransfer id = some t' ∧ SameTerms t t' := by
  have opened : ∀ u, Opened s u s' → u.id ≠ id → s'.getTransfer id = some t := by
    intro u ho hne
    rw [ho.getTransfer, if_neg (Ne.symm hne), ht]
  have put : ∀ k u u', s.getTransfer k = some u → SameTerms u u' →
      ∃ t', (s.put k u').getTransfer id = some t' ∧ SameTerms t t' := by
    intro k u u' hu hsame
    rw [getTransfer_put]
    split_ifs with hk
    · rw [hk, hu] at ht
      exact ⟨u', rfl, Option.some.inj ht ▸ hsame⟩
    · exact ⟨t, ht, .refl t⟩
  cases h with
  | nothing hi => exact ⟨t, (hi.getTransfer id).trans ht, .refl t⟩
  | outbound ho => exact ⟨t, opened _ ho (hw _ rfl), .refl t⟩
  | inbound ho => exact ⟨t, opened _ ho (hw _ rfl), .refl t⟩
  | confirmed hu => exact put _ _ _ hu ⟨rfl, rfl, rfl, rfl, rfl, rfl⟩
  | completed _ hu => exact put _ _ _ hu ⟨rfl, rfl, rfl, rfl, rfl, rfl⟩
  | failed hu => exact put _ _ _ hu ⟨rfl, rfl, rfl, rfl, rfl, rfl⟩

namespace BridgeRelayer

/-- No call of the sequence opens another transfer under the id. -/
def NotReplaced (r : BridgeRelayer) (ops : List BridgeOp) (id : String) : Prop :=
  ∀ p op, p ++ [op] <+: ops → ∀ u, (r.after p).written op = .opened u → u.id ≠ id

theorem NotReplaced.sameTerms {r : BridgeRelayer} {ops : List BridgeOp} {id : String}
    (h : r.NotReplaced ops id) {t : BridgeTransfer} (ht : r.state.getTransfer id = some t) :
    ∃ t', (r.after ops).state.getTransfer id = some t' ∧ SameTerms t t' := by
  induction ops using List.reverseRecOn with
  | nil => exact ⟨t, ht, .refl t⟩
  | append_singleton ops op ih =>
    obtain ⟨hops, hop⟩ := forall_step_concat.mp h
    obtain ⟨u, hu, hsame⟩ := ih hops
    rw [r.after_concat]
    obtain ⟨t', ht', hsame'⟩ := ((r.after ops).writes_call op).sameTerms hu hop
    exact ⟨t', ht', hsame.trans hsame'⟩

theorem notReplaced_of_fresh {config : BridgeConfig} {validators : BridgeValidatorSet}
    {adapters : Finset ExternalChain} {p ops : List BridgeOp} {id : String} {t : BridgeTransfer}
    (hlen : (p ++ ops).length < 2 ^ 64)
    (ht : ((fresh config validators adapters).after p).state.getTransfer id = some t) :
    ((fresh config validators adapters).after p).NotReplaced ops id := by
  induction ops using List.reverseRecOn with
  | nil =>
    intro q op hq
    simp at hq
  | append_singleton ops op ih =>
    rw [← List.append_assoc] at hlen
    have hops : ((fresh config validators adapters).after p).NotReplaced ops id :=
      ih (Nat.lt_of_le_of_lt (by simp) hlen)
    refine forall_step_concat.mpr ⟨hops, fun u hu he => ?_⟩
    have hafter : ((fresh config validators adapters).after p).after ops =
        (fresh config validators adapters).after (p ++ ops) := List.foldl_append.symm
    obtain ⟨t', ht', -⟩ := hops.sameTerms ht
    rw [hafter] at hu ht'
    rw [← he, getTransfer_opened_eq_none config validators adapters hlen hu] at ht'
    cases ht'

theorem processOutboundRequest_ok {r : BridgeRelayer} {sender : Address} {chain : ExternalChain}
    {recipient token : String} {amount now idNow : ℕ} {t : BridgeTransfer} {s' : BridgeState}
    (h : r.processOutboundRequest sender chain recipient token amount now idNow = (.ok t, s')) :
    s'.getTransfer t.id = some t ∧ t.direction = .outbound ∧ t.destChain = chain.name ∧
      t.recipient = recipient ∧ t.tokenSymbol = token ∧ t.amount = amount ∧
      t.fee = calculateFee amount ∧ 0 < t.amount - t.fee := by
  unfold processOutboundRequest at h
  split_ifs at h with hfee
  · cases (Prod.mk.inj h).1
  · have hstored := (BridgeState.getTransfer_initiateOutbound h).1
    unfold BridgeState.initiateOutbound at h
    split_ifs at h
    · cases (Prod.mk.inj h).1
    · cases (Prod.mk.inj h).1
    · obtain rfl := Except.ok.inj (Prod.mk.inj h).1
      exact ⟨hstored, rfl, rfl, rfl, rfl, rfl, rfl, Nat.sub_pos_of_lt (Nat.lt_of_not_le hfee)⟩

/-! ### Paying -/

/-- **A transfer is paid on a chain**: finalizing it asks the adapter of the chain to pay the
recipient in the token the amount without the fee, which is positive, and when the adapter does, it
returns `Ok` with the transaction of the adapter. -/
structure Pays (r : BridgeRelayer) (chain : ExternalChain) (t : BridgeTransfer) : Prop where
  asks : FinalizeCall.afterRead r.adapters t.id (r.state.getTransfer t.id) =
    .unlocking ⟨chain, t.recipient, t.tokenSymbol, t.amount - t.fee⟩
  positive : 0 < t.amount - t.fee
  returns : ∀ (submitUnlock : UnlockRequest → Except BridgeError String) (now : ℕ)
      (destTx : String),
    submitUnlock ⟨chain, t.recipient, t.tokenSymbol, t.amount - t.fee⟩ = .ok destTx →
      ∃ paid, (r.finalizeTransfer t.id submitUnlock now).1 = .ok paid ∧
        paid.destTxHash = some destTx

theorem pays_iff {r : BridgeRelayer} {chain : ExternalChain} {t u : BridgeTransfer}
    (hadapters : ∀ c, c ∈ r.adapters) (hdir : t.direction = .outbound)
    (hchain : t.destChain = chain.name) (hpos : 0 < t.amount - t.fee)
    (hu : r.state.getTransfer t.id = some u) (hsame : SameTerms t u)
    (hv : u.status = .validated) : Pays r chain t ↔ chain ≠ .bnbChain := by
  have hname : ExternalChain.fromName u.destChain =
      if chain = .bnbChain then none else some chain := by
    rw [hsame.destChain, hchain, ExternalChain.fromName_name]
  have hrequest : unlockRequest chain u =
      ⟨chain, t.recipient, t.tokenSymbol, t.amount - t.fee⟩ := by
    rw [unlockRequest, hsame.recipient, hsame.tokenSymbol, hsame.amount, hsame.fee]
  constructor
  · rintro ⟨hasks, -, -⟩ hbnb
    rw [hu, FinalizeCall.afterRead, if_neg (not_not.mpr hv), hsame.direction, hdir] at hasks
    dsimp only at hasks
    rw [hname, if_pos hbnb] at hasks
    cases hasks
  · intro hbnb
    rw [if_neg hbnb] at hname
    refine ⟨?_, hpos, fun submitUnlock now destTx hdest => ?_⟩
    · rw [hu, FinalizeCall.afterRead, if_neg (not_not.mpr hv), hsame.direction, hdir]
      dsimp only
      rw [hname]
      dsimp only
      rw [if_pos (hadapters chain), hrequest]
    · unfold finalizeTransfer
      rw [hu]
      dsimp only
      rw [if_neg (not_not.mpr hv), hsame.direction, hdir]
      dsimp only
      rw [hname]
      dsimp only
      rw [if_pos (hadapters chain), hrequest, hdest]
      dsimp only
      unfold BridgeState.completeTransfer
      rw [show r.state.transfers.lookup t.id = some u from hu]
      exact ⟨_, rfl, rfl⟩

end BridgeRelayer

/-- **Validated outbound transfers are paid**, if and only if they are not to the BNB chain: for
every request to any relayer, after every run in which the transfer is not replaced, as soon as
every chain has an adapter. -/
theorem outbound_paid_iff (r : BridgeRelayer) {sender : Address} {chain : ExternalChain}
    {recipient token : String} {amount now idNow : ℕ} {t : BridgeTransfer} {s : BridgeState}
    (hrequest : r.processOutboundRequest sender chain recipient token amount now idNow = (.ok t, s))
    {ops : List BridgeOp} (hkept : BridgeRelayer.NotReplaced { r with state := s } ops t.id)
    (hadapters : ∀ c, c ∈ (BridgeRelayer.after { r with state := s } ops).adapters)
    {u : BridgeTransfer}
    (hu : (BridgeRelayer.after { r with state := s } ops).state.getTransfer t.id = some u)
    (hv : u.status = .validated) :
    (t.recipient = recipient ∧ t.tokenSymbol = token ∧ t.amount = amount ∧
      t.fee = BridgeRelayer.calculateFee amount) ∧
    ((BridgeRelayer.after { r with state := s } ops).Pays chain t ↔ chain ≠ .bnbChain) := by
  obtain ⟨hstored, hdir, hchain, hrecipient, htoken, hamount, hfee, hpos⟩ :=
    BridgeRelayer.processOutboundRequest_ok hrequest
  obtain ⟨u', hu', hsame⟩ := hkept.sameTerms hstored
  obtain rfl : u' = u := Option.some.inj (hu'.symm.trans hu)
  exact ⟨⟨hrecipient, htoken, hamount, hfee⟩,
    BridgeRelayer.pays_iff hadapters hdir hchain hpos hu hsame hv⟩

/-- A relayer with an adapter for every chain, at a point of its run. -/
def wiredAfter (ops : List BridgeOp) : BridgeRelayer :=
  (BridgeRelayer.fresh ⟨1, 10, true, true⟩ ∅
    {.bitcoin, .ethereum, .bnbChain, .polygon, .solana}).after ops

/-- The start of a run: a validator, whose confirmation is enough, and the request of a transfer of
10000 to a chain. -/
def requestTo (chain : ExternalChain) : List BridgeOp :=
  [.addValidator (party 1) ⟨Vector.replicate 32 1⟩ 100 1,
    .processOutboundRequest (party 3) chain "0xrecipient" "RCT" 10000 3 3]

def transferTo (chain : ExternalChain) : BridgeTransfer :=
  ⟨"bridge-3-1", .outbound, "RustChain", chain.name, (party 3).toHex, "0xrecipient", "RCT", 10000,
    10, .pending, none, none, 0, 1, 3, 3, 10003⟩

def confirmation : BridgeOp := .submitConfirmation "bridge-3-1" (party 1) 4

/-- A validated transfer to Ethereum is paid there. -/
theorem ethereum_transfer_paid :
    (wiredAfter (requestTo .ethereum ++ [confirmation])).Pays .ethereum (transferTo .ethereum) := by
  have hrequest : (wiredAfter ((requestTo .ethereum).take 1)).processOutboundRequest (party 3)
      .ethereum "0xrecipient" "RCT" 10000 3 3 =
        (.ok (transferTo .ethereum), (wiredAfter (requestTo .ethereum)).state) :=
    Prod.ext (by decide +kernel) rfl
  have hkept : (wiredAfter (requestTo .ethereum)).NotReplaced [confirmation] "bridge-3-1" :=
    BridgeRelayer.notReplaced_of_fresh (by decide)
      (show (wiredAfter (requestTo .ethereum)).state.getTransfer "bridge-3-1" =
        some (transferTo .ethereum) by decide +kernel)
  have hadapters : ∀ c, c ∈ (wiredAfter (requestTo .ethereum ++ [confirmation])).adapters := by
    intro c
    cases c <;> decide +kernel
  have hu : (wiredAfter (requestTo .ethereum ++ [confirmation])).state.getTransfer "bridge-3-1" =
      some { transferTo .ethereum with status := .validated, confirmations := 1, updatedAt := 4 } :=
    by decide +kernel
  exact (outbound_paid_iff _ hrequest hkept hadapters hu rfl).2.mpr (by decide)

/-- A validated transfer to the BNB chain is not paid: whatever the adapters answer, finalizing it
fails with the name of the chain. -/
theorem bnb_transfer_not_paid :
    (∀ c, c ∈ (wiredAfter (requestTo .bnbChain ++ [confirmation])).adapters) ∧
    ((wiredAfter ((requestTo .bnbChain).take 1)).processOutboundRequest (party 3) .bnbChain
      "0xrecipient" "RCT" 10000 3 3).1 = .ok (transferTo .bnbChain) ∧
    ((wiredAfter (requestTo .bnbChain ++ [confirmation])).state.getTransfer "bridge-3-1").map
      (·.status) = some .validated ∧
    ∀ submitUnlock now, ((wiredAfter (requestTo .bnbChain ++ [confirmation])).finalizeTransfer
      "bridge-3-1" submitUnlock now).1 = .error (.unsupportedChain "BNB Chain") := by
  have hu : (wiredAfter (requestTo .bnbChain ++ [confirmation])).state.getTransfer "bridge-3-1" =
      some { transferTo .bnbChain with status := .validated, confirmations := 1, updatedAt := 4 } :=
    by decide +kernel
  refine ⟨fun c => by cases c <;> decide +kernel, by decide +kernel, by rw [hu]; rfl,
    fun submitUnlock now => ?_⟩
  have hname : ExternalChain.fromName (transferTo .bnbChain).destChain = none :=
    ExternalChain.fromName_name .bnbChain
  unfold BridgeRelayer.finalizeTransfer
  rw [hu]
  dsimp only
  rw [if_neg (by decide)]
  dsimp only [transferTo] at hname ⊢
  rw [hname]
  rfl

end Rustchain.Bridge
