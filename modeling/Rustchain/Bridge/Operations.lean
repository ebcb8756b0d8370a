import Rustchain.Bridge.Relay

/-! # Calls of the bridge

The public operations that can change the state of the bridge, its validators or its adapters, as
one type of calls. What a call writes to the transfers is one of four things: it opens a transfer,
or it confirms, completes or fails one. `Writes` says so for every call, and the laws of the bridge
are proved from it. -/

namespace Rustchain.Bridge

open Rustchain.Core Lib.Machine Lib.Maps

/-- A call with the clock readings that it meets. -/
inductive BridgeOp where
  | initiateOutbound (sender : Address) (destChain : ExternalChain) (recipient tokenSymbol : String)
      (amount fee now idNow : ℕ)
  | recordInbound (sourceChain : ExternalChain) (sender : String) (recipient : Address)
      (tokenSymbol : String) (amount fee : ℕ) (sourceTxHash : String) (now idNow : ℕ)
  | processInboundEvent (sourceChain : ExternalChain) (sender : String) (recipient : Address)
      (tokenSymbol : String) (amount : ℕ) (sourceTxHash : String) (now idNow : ℕ)
  | processOutboundRequest (sender : Address) (destChain : ExternalChain)
      (recipient tokenSymbol : String) (amount now idNow : ℕ)
  | addConfirmation (id : String) (validator : Address) (now : ℕ)
  | submitConfirmation (id : String) (validator : Address) (now : ℕ)
  | finalizeTransfer (id : String) (submitUnlock : UnlockRequest → Except BridgeError String)
      (now : ℕ)
  | completeTransfer (id destTxHash : String) (now : ℕ)
  | failTransfer (id : String) (now : ℕ)
  | pause
  | unpause
  | addValidator (address : Address) (publicKey : PublicKey) (weight now : ℕ)
  | removeValidator (address : Address)
  | registerAdapter (chain : ExternalChain)

namespace BridgeRelayer

/-- An operation on the state, as a call of the relayer. -/
def onState (r : BridgeRelayer) (a : Except BridgeError BridgeTransfer × BridgeState) :
    Except BridgeError (Option BridgeTransfer) × BridgeRelayer :=
  (a.1.map some, { r with state := a.2 })

/-- The answer to a call, with the transfer that it returns if it returns one, and the relayer
after it. -/
def call (r : BridgeRelayer) :
    BridgeOp → Except BridgeError (Option BridgeTransfer) × BridgeRelayer
  | .initiateOutbound sender destChain recipient tokenSymbol amount fee now idNow =>
    r.onState (r.state.initiateOutbound sender destChain recipient tokenSymbol amount fee now idNow)
  | .recordInbound sourceChain sender recipient tokenSymbol amount fee sourceTxHash now idNow =>
    r.onState (r.state.recordInbound sourceChain sender recipient tokenSymbol amount fee
      sourceTxHash now idNow)
  | .processInboundEvent sourceChain sender recipient tokenSymbol amount sourceTxHash now idNow =>
    r.onState (r.processInboundEvent sourceChain sender recipient tokenSymbol amount sourceTxHash
      now idNow)
  | .processOutboundRequest sender destChain recipient tokenSymbol amount now idNow =>
    r.onState (r.processOutboundRequest sender destChain recipient tokenSymbol amount now idNow)
  | .addConfirmation id _ now => r.onState (r.state.addConfirmation id now)
  | .submitConfirmation id validator now =>
    ((r.submitConfirmation id validator now).1.map some, (r.submitConfirmation id validator now).2)
  | .finalizeTransfer id submitUnlock now => r.onState (r.finalizeTransfer id submitUnlock now)
  | .completeTransfer id destTxHash now => r.onState (r.state.completeTransfer id destTxHash now)
  | .failTransfer id now => r.onState (r.state.failTransfer id now)
  | .pause => (.ok none, { r with state := r.state.pause })
  | .unpause => (.ok none, { r with state := r.state.unpause })
  | .addValidator address publicKey weight now =>
    (.ok none, { r with
      validators := BridgeValidatorSet.addValidator r.validators address publicKey weight now })
  | .removeValidator address =>
    (.ok none, { r with validators := BridgeValidatorSet.removeValidator r.validators address })
  | .registerAdapter chain => (.ok none, { r with adapters := insert chain r.adapters })

def fresh (config : BridgeConfig) (validators : BridgeValidatorSet)
    (adapters : Finset ExternalChain) : BridgeRelayer :=
  ⟨BridgeState.new config, validators, adapters⟩

end BridgeRelayer

/-- An address of equal bytes, for concrete runs. -/
def party (b : UInt8) : Address := ⟨Vector.replicate 20 b⟩

/-! ### What a call writes -/

/-- A write to the transfers. -/
inductive Write where
  | nothing
  | opened (t : BridgeTransfer)
  | confirmed (id : String) (validator : Address) (now : ℕ)
  | completed (id : String) (now : ℕ)
  | failed (id : String) (now : ℕ)

/-- What a call has written that returned the transfer `t`. -/
def BridgeOp.write (t : BridgeTransfer) : BridgeOp → Write
  | .initiateOutbound .. | .recordInbound .. | .processInboundEvent ..
  | .processOutboundRequest .. => .opened t
  | .addConfirmation id validator now | .submitConfirmation id validator now =>
    .confirmed id validator now
  | .finalizeTransfer id _ now | .completeTransfer id _ now => .completed id now
  | .failTransfer id now => .failed id now
  | .pause | .unpause | .addValidator .. | .removeValidator .. | .registerAdapter .. => .nothing

def BridgeRelayer.written (r : BridgeRelayer) (op : BridgeOp) : Write :=
  match (r.call op).1 with
  | .ok (some t) => op.write t
  | _ => .nothing

namespace BridgeState

/-- A new transfer in the table, whichever way it goes. -/
structure Opened (s : BridgeState) (t : BridgeTransfer) (s' : BridgeState) : Prop where
  id : ∃ now, t.id = (s.nextId now).1
  confirmations : t.confirmations = 0
  required : t.requiredConfirmations = s.config.minSignatures
  transfers : s'.transfers = s.transfers.insert t.id t
  counter : s'.counter = (addU 64 s.counter 1).val
  config : s'.config = s.config

/-- The transfers, their totals, the settings and the counter are as they were. -/
structure Idle (s s' : BridgeState) : Prop where
  transfers : s'.transfers = s.transfers
  locked : s'.locked = s.locked
  wrapped : s'.wrapped = s.wrapped
  counter : s'.counter = s.counter
  config : s'.config = s.config

variable (s : BridgeState) (id : String) (validator : Address) (now : ℕ)

theorem Idle.refl : Idle s s := ⟨rfl, rfl, rfl, rfl, rfl⟩

theorem Idle.getTransfer {s s' : BridgeState} (h : Idle s s') (k : String) :
    s'.getTransfer k = s.getTransfer k := by
  unfold BridgeState.getTransfer
  rw [h.transfers]

theorem Opened.getTransfer {s s' : BridgeState} {t : BridgeTransfer} (h : Opened s t s')
    (k : String) : s'.getTransfer k = if k = t.id then some t else s.getTransfer k := by
  rw [← getTransfer_put]
  unfold BridgeState.getTransfer
  rw [h.transfers]
  rfl

theorem forall_getTransfer_iff {s : BridgeState} {P : String → BridgeTransfer → Prop} :
    (∀ id t, s.getTransfer id = some t → P id t) ↔ ∀ e ∈ s.transfers.entries, P e.1 e.2 := by
  constructor
  · intro h e he
    exact h e.1 e.2 (AList.mem_lookup_iff.mpr he)
  · intro h id t ht
    exact h ⟨id, t⟩ (AList.mem_lookup_iff.mp ht)

def completed (t : BridgeTransfer) (destTxHash : String) (now : ℕ) : BridgeTransfer :=
  { t with status := .completed, destTxHash := some destTxHash, updatedAt := now }

def failed (t : BridgeTransfer) (now : ℕ) : BridgeTransfer :=
  { t with status := .failed, updatedAt := now }

/-- What a write does to the state. -/
inductive Writes (s : BridgeState) : Write → BridgeState → Prop
  | nothing {s' : BridgeState} (h : Idle s s') : Writes s .nothing s'
  | outbound {s' : BridgeState} {t : BridgeTransfer} {chain : ExternalChain} (h : Opened s t s')
      (hdir : t.direction = .outbound) (hchain : t.destChain = chain.name)
      (hstatus : t.status = .pending)
      (hlocked : s'.locked = s.locked.insert (lockKey chain t.tokenSymbol)
        (addU 128 ((s.locked.lookup (lockKey chain t.tokenSymbol)).getD 0) t.amount).val)
      (hwrapped : s'.wrapped = s.wrapped) : Writes s (.opened t) s'
  | inbound {s' : BridgeState} {t : BridgeTransfer} {chain : ExternalChain} (h : Opened s t s')
      (hdir : t.direction = .inbound) (hchain : t.sourceChain = chain.name)
      (hstatus : t.status = .sourceConfirmed)
      (hwrapped : s'.wrapped = s.wrapped.insert (lockKey chain t.tokenSymbol)
        { (s.wrapped.lookup (lockKey chain t.tokenSymbol)).getD ⟨0, 0⟩ with
          totalMinted := (addU 128 ((s.wrapped.lookup (lockKey chain t.tokenSymbol)).getD
            ⟨0, 0⟩).totalMinted (t.amount - t.fee)).val })
      (hlocked : s'.locked = s.locked) : Writes s (.opened t) s'
  | confirmed {id : String} {validator : Address} {now : ℕ} {t : BridgeTransfer}
      (ht : s.getTransfer id = some t) (hstatus : t.status ≠ .completed) :
      Writes s (.confirmed id validator now) (s.put id (confirmed t now))
  | completed {id : String} {now : ℕ} {t : BridgeTransfer} (destTxHash : String)
      (ht : s.getTransfer id = some t) :
      Writes s (.completed id now) (s.put id (completed t destTxHash now))
  | failed {id : String} {now : ℕ} {t : BridgeTransfer} (ht : s.getTransfer id = some t) :
      Writes s (.failed id now) (s.put id (failed t now))

/-! ### Each operation writes what it should -/

/-- What an operation with this answer has written, when `w t` is what it writes on success. -/
def writeOf (w : BridgeTransfer → Write) : Except BridgeError BridgeTransfer → Write
  | .ok t => w t
  | .error _ => .nothing

theorem writes_initiateOutbound (sender : Address) (destChain : ExternalChain)
    (recipient tokenSymbol : String) (amount fee now idNow : ℕ) :
    Writes s (writeOf .opened (s.initiateOutbound sender destChain recipient tokenSymbol amount
        fee now idNow).1)
      (s.initiateOutbound sender destChain recipient tokenSymbol amount fee now idNow).2 := by
  unfold initiateOutbound
  split_ifs
  · exact .nothing (Idle.refl s)
  · exact .nothing (Idle.refl s)
  · exact .outbound ⟨⟨idNow, rfl⟩, rfl, rfl, rfl, rfl, rfl⟩ rfl rfl rfl rfl rfl

theorem writes_recordInbound (sourceChain : ExternalChain) (sender : String) (recipient : Address)
    (tokenSymbol : String) (amount fee : ℕ) (sourceTxHash : String) (now idNow : ℕ) :
    Writes s (writeOf .opened (s.recordInbound sourceChain sender recipient tokenSymbol amount fee
        sourceTxHash now idNow).1)
      (s.recordInbound sourceChain sender recipient tokenSymbol amount fee sourceTxHash now
        idNow).2 := by
  unfold recordInbound
  split_ifs
  · exact .nothing (Idle.refl s)
  · exact .nothing (Idle.refl s)
  · exact .inbound ⟨⟨idNow, rfl⟩, rfl, rfl, rfl, rfl, rfl⟩ rfl rfl rfl rfl rfl

theorem writes_addConfirmation :
    Writes s (writeOf (fun _ => .confirmed id validator now) (s.addConfirmation id now).1)
      (s.addConfirmation id now).2 := by
  unfold addConfirmation
  cases ht : s.transfers.lookup id with
  | none => exact .nothing (Idle.refl s)
  | some t =>
    dsimp only
    split_ifs with hc
    · exact .nothing (Idle.refl s)
    · exact .confirmed ht hc

theorem writes_completeTransfer (id destTxHash : String) (now : ℕ) :
    Writes s (writeOf (fun _ => .completed id now) (s.completeTransfer id destTxHash now).1)
      (s.completeTransfer id destTxHash now).2 := by
  unfold completeTransfer
  cases ht : s.transfers.lookup id with
  | none => exact .nothing (Idle.refl s)
  | some t => exact .completed destTxHash ht

theorem writes_failTransfer :
    Writes s (writeOf (fun _ => .failed id now) (s.failTransfer id now).1)
      (s.failTransfer id now).2 := by
  unfold failTransfer
  cases ht : s.transfers.lookup id with
  | none => exact .nothing (Idle.refl s)
  | some t => exact .failed ht

end BridgeState

namespace BridgeRelayer

open BridgeState

variable (r : BridgeRelayer) (id : String)
variable (submitUnlock : UnlockRequest → Except BridgeError String) (now : ℕ)

theorem finalizeTransfer_cases :
    (∃ e, r.finalizeTransfer id submitUnlock now = (.error e, r.state)) ∨
    ∃ t destTx, r.state.getTransfer id = some t ∧ t.status = .validated ∧
      r.finalizeTransfer id submitUnlock now = r.state.completeTransfer id destTx now := by
  unfold finalizeTransfer
  cases ht : r.state.getTransfer id with
  | none => exact .inl ⟨_, rfl⟩
  | some t =>
    dsimp only
    split_ifs with hv
    · exact .inl ⟨_, rfl⟩
    · have hv : t.status = .validated := not_not.mp hv
      split
      · exact .inr ⟨t, _, rfl, hv, rfl⟩
      · split
        · exact .inl ⟨_, rfl⟩
        · split_ifs
          · split
            · exact .inl ⟨_, rfl⟩
            · exact .inr ⟨t, _, rfl, hv, rfl⟩
          · exact .inr ⟨t, _, rfl, hv, rfl⟩

theorem writes_finalizeTransfer :
    Writes r.state
      (writeOf (fun _ => .completed id now) (r.finalizeTransfer id submitUnlock now).1)
      (r.finalizeTransfer id submitUnlock now).2 := by
  rcases r.finalizeTransfer_cases id submitUnlock now with ⟨e, he⟩ | ⟨t, destTx, -, -, he⟩
  · rw [he]
    exact .nothing (Idle.refl r.state)
  · rw [he]
    exact writes_completeTransfer r.state id destTx now

theorem written_onState {r : BridgeRelayer} {op : BridgeOp}
    {a : Except BridgeError BridgeTransfer × BridgeState} (h : r.call op = r.onState a) :
    r.written op = writeOf (fun t => op.write t) a.1 := by
  unfold written
  rw [h, onState]
  cases a.1 with
  | error e => rfl
  | ok t => rfl

theorem writes_call (op : BridgeOp) : Writes r.state (r.written op) (r.call op).2.state := by
  cases op with
  | initiateOutbound sender destChain recipient tokenSymbol amount fee now idNow =>
    rw [written_onState rfl]
    exact writes_initiateOutbound ..
  | recordInbound sourceChain sender recipient tokenSymbol amount fee sourceTxHash now idNow =>
    rw [written_onState rfl]
    exact writes_recordInbound ..
  | processInboundEvent sourceChain sender recipient tokenSymbol amount sourceTxHash now idNow =>
    rw [written_onState rfl]
    exact writes_recordInbound ..
  | processOutboundRequest sender destChain recipient tokenSymbol amount now idNow =>
    rw [written_onState rfl]
    show Writes r.state (writeOf .opened (r.processOutboundRequest sender destChain recipient
      tokenSymbol amount now idNow).1) (r.processOutboundRequest sender destChain recipient
      tokenSymbol amount now idNow).2
    unfold processOutboundRequest
    split_ifs
    · exact .nothing (Idle.refl r.state)
    · exact writes_initiateOutbound ..
  | addConfirmation id validator now =>
    rw [written_onState rfl]
    exact writes_addConfirmation r.state id validator now
  | submitConfirmation id validator now =>
    unfold written
    simp only [call, submitConfirmation]
    split_ifs with hv
    · exact .nothing (Idle.refl r.state)
    · have h := writes_addConfirmation r.state id validator now
      generalize r.state.addConfirmation id now = a at h ⊢
      obtain ⟨res, s'⟩ := a
      cases res with
      | error e => exact h
      | ok t => exact h
  | finalizeTransfer id submitUnlock now =>
    rw [written_onState rfl]
    exact writes_finalizeTransfer r id submitUnlock now
  | completeTransfer id destTxHash now =>
    rw [written_onState rfl]
    exact writes_completeTransfer r.state id destTxHash now
  | failTransfer id now =>
    rw [written_onState rfl]
    exact writes_failTransfer r.state id now
  | pause => exact .nothing ⟨rfl, rfl, rfl, rfl, rfl⟩
  | unpause => exact .nothing ⟨rfl, rfl, rfl, rfl, rfl⟩
  | addValidator address publicKey weight now => exact .nothing (Idle.refl r.state)
  | removeValidator address => exact .nothing (Idle.refl r.state)
  | registerAdapter chain => exact .nothing (Idle.refl r.state)

end BridgeRelayer

end Rustchain.Bridge
