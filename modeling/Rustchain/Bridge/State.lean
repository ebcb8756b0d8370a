import Rustchain.Bridge.Types

/-! # The state of the bridge

`BridgeState`: the transfers with their statuses, the amounts locked and minted for them, and the
switches of the bridge. Each operation takes the clock readings that it meets. Sums wrap as in a
build without overflow checks. -/

namespace Rustchain.Bridge

open Rustchain.Core Lib.Machine Lib.Maps

/-- The supply of a wrapped token. -/
structure WrappedTokenState where
  totalMinted : ℕ
  totalBurned : ℕ
  deriving DecidableEq, Repr

structure BridgeState where
  transfers : HashMap String BridgeTransfer
  bySender : HashMap String (List String)
  locked : HashMap String ℕ
  wrapped : HashMap String WrappedTokenState
  config : BridgeConfig
  paused : Bool
  counter : ℕ

namespace BridgeState

def new (config : BridgeConfig) : BridgeState := ⟨∅, ∅, ∅, ∅, config, false, 0⟩

def lockKey (chain : ExternalChain) (token : String) : String := s!"{chain.name}:{token}"

/-- `next_id`: the counter is raised and becomes part of the id. -/
def nextId (s : BridgeState) (now : ℕ) : String × BridgeState :=
  let counter := (addU 64 s.counter 1).val
  (s!"bridge-{now}-{counter}", { s with counter := counter })

def pause (s : BridgeState) : BridgeState := { s with paused := true }

def unpause (s : BridgeState) : BridgeState := { s with paused := false }

def expiry (config : BridgeConfig) (now : ℕ) : ℕ :=
  (addU 64 now (mulU 64 config.transferTimeoutSeconds 1000).val).val

/-- **`initiate_outbound`**; `idNow` is the clock reading of `next_id`. -/
def initiateOutbound (s : BridgeState) (sender : Address) (destChain : ExternalChain)
    (recipient tokenSymbol : String) (amount fee now idNow : ℕ) :
    Except BridgeError BridgeTransfer × BridgeState :=
  if s.paused then (.error .bridgePaused, s)
  else if s.config.allowOutbound = false then
    (.error (.unauthorized "Outbound transfers disabled"), s)
  else
    let r := s.nextId idNow
    let transfer : BridgeTransfer :=
      { id := r.1, direction := .outbound, sourceChain := "RustChain", destChain := destChain.name
        sender := sender.toHex, recipient := recipient, tokenSymbol := tokenSymbol
        amount := amount, fee := fee, status := .pending, sourceTxHash := none, destTxHash := none
        confirmations := 0, requiredConfirmations := s.config.minSignatures, createdAt := now
        updatedAt := now, expiresAt := expiry s.config now }
    let key := lockKey destChain tokenSymbol
    (.ok transfer,
      { r.2 with
        locked := s.locked.insert key (addU 128 ((s.locked.lookup key).getD 0) amount).val
        transfers := s.transfers.insert r.1 transfer
        bySender :=
          s.bySender.insert sender.toHex ((s.bySender.lookup sender.toHex).getD [] ++ [r.1]) })

/-- **`record_inbound`.** -/
def recordInbound (s : BridgeState) (sourceChain : ExternalChain) (sender : String)
    (recipient : Address) (tokenSymbol : String) (amount fee : ℕ) (sourceTxHash : String)
    (now idNow : ℕ) : Except BridgeError BridgeTransfer × BridgeState :=
  if s.paused then (.error .bridgePaused, s)
  else if s.config.acceptInbound = false then
    (.error (.unauthorized "Inbound transfers disabled"), s)
  else
    let r := s.nextId idNow
    let transfer : BridgeTransfer :=
      { id := r.1, direction := .inbound, sourceChain := sourceChain.name
        destChain := "RustChain", sender := sender, recipient := recipient.toHex
        tokenSymbol := tokenSymbol, amount := amount, fee := fee, status := .sourceConfirmed
        sourceTxHash := some sourceTxHash, destTxHash := none, confirmations := 0
        requiredConfirmations := s.config.minSignatures, createdAt := now, updatedAt := now
        expiresAt := expiry s.config now }
    let key := lockKey sourceChain tokenSymbol
    let token := (s.wrapped.lookup key).getD ⟨0, 0⟩
    (.ok transfer,
      { r.2 with
        wrapped := s.wrapped.insert key
          { token with totalMinted := (addU 128 token.totalMinted (amount - fee)).val }
        transfers := s.transfers.insert r.1 transfer })

/-- Write through `get_mut` on the transfers. -/
def put (s : BridgeState) (id : String) (t : BridgeTransfer) : BridgeState :=
  { s with transfers := s.transfers.insert id t }

def confirmed (t : BridgeTransfer) (now : ℕ) : BridgeTransfer :=
  let confirmations := (addU 64 t.confirmations 1).val
  { t with
    confirmations := confirmations
    updatedAt := now
    status := if t.requiredConfirmations ≤ confirmations then .validated else t.status }

/-- **`add_confirmation`.** -/
def addConfirmation (s : BridgeState) (id : String) (now : ℕ) :
    Except BridgeError BridgeTransfer × BridgeState :=
  match s.transfers.lookup id with
  | none => (.error (.transferNotFound id), s)
  | some t =>
    if t.status = .completed then (.error .transferAlreadyProcessed, s)
    else (.ok (confirmed t now), s.put id (confirmed t now))

/-- **`complete_transfer`**, which does not look at the status. -/
def completeTransfer (s : BridgeState) (id destTxHash : String) (now : ℕ) :
    Except BridgeError BridgeTransfer × BridgeState :=
  match s.transfers.lookup id with
  | none => (.error (.transferNotFound id), s)
  | some t =>
    let t' := { t with status := .completed, destTxHash := some destTxHash, updatedAt := now }
    (.ok t', s.put id t')

/-- **`fail_transfer`.** -/
def failTransfer (s : BridgeState) (id : String) (now : ℕ) :
    Except BridgeError BridgeTransfer × BridgeState :=
  match s.transfers.lookup id with
  | none => (.error (.transferNotFound id), s)
  | some t =>
    let t' := { t with status := .failed, updatedAt := now }
    (.ok t', s.put id t')

def getTransfer (s : BridgeState) (id : String) : Option BridgeTransfer := s.transfers.lookup id

theorem getTransfer_put (s : BridgeState) (id k : String) (t : BridgeTransfer) :
    (s.put id t).getTransfer k = if k = id then some t else s.getTransfer k := by
  unfold getTransfer put
  split_ifs with h
  · subst h
    exact AList.lookup_insert _
  · exact AList.lookup_insert_ne h

theorem getTransfer_initiateOutbound {s s' : BridgeState} {sender : Address}
    {destChain : ExternalChain} {recipient tokenSymbol : String} {amount fee now idNow : ℕ}
    {t : BridgeTransfer}
    (h : s.initiateOutbound sender destChain recipient tokenSymbol amount fee now idNow =
      (.ok t, s')) :
    s'.getTransfer t.id = some t ∧ t.status = .pending ∧ t.destTxHash = none := by
  unfold initiateOutbound at h
  split_ifs at h
  · cases (Prod.mk.inj h).1
  · cases (Prod.mk.inj h).1
  · obtain ⟨ht, rfl⟩ := Prod.mk.inj h
    obtain rfl := Except.ok.inj ht
    exact ⟨AList.lookup_insert _, rfl, rfl⟩

end BridgeState

end Rustchain.Bridge
