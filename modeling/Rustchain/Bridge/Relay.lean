import Rustchain.Bridge.State

/-! # The relayer

`BridgeRelayer`: validators confirm transfers, and a transfer with enough confirmations is
finalized, which for an outbound one unlocks tokens on another chain through an adapter.
`finalize_transfer` is modelled twice: as one function, and as the accesses to shared state that it
makes one after the other (`FinalizeCall`), between which other calls can run. What an adapter
answers is an input. -/

namespace Rustchain.Bridge

open Rustchain.Core Lib.Machine Lib.Maps

structure BridgeValidator where
  address : Address
  publicKey : PublicKey
  weight : ℕ
  isActive : Bool
  confirmationsCount : ℕ
  addedAt : ℕ
  deriving DecidableEq, Repr

abbrev BridgeValidatorSet := HashMap Address BridgeValidator

namespace BridgeValidatorSet

def isValidator (vs : BridgeValidatorSet) (address : Address) : Bool :=
  ((vs.lookup address).map (·.isActive)).getD false

def recordConfirmation (vs : BridgeValidatorSet) (address : Address) : BridgeValidatorSet :=
  match vs.lookup address with
  | none => vs
  | some v =>
    vs.insert address { v with confirmationsCount := (addU 64 v.confirmationsCount 1).val }

/-- `add_validator`, which replaces an entry of the same address. -/
def addValidator (vs : BridgeValidatorSet) (address : Address) (publicKey : PublicKey)
    (weight now : ℕ) : BridgeValidatorSet :=
  vs.insert address
    { address := address, publicKey := publicKey, weight := weight, isActive := true
      confirmationsCount := 0, addedAt := now }

def removeValidator (vs : BridgeValidatorSet) (address : Address) : BridgeValidatorSet :=
  vs.erase address

/-- **`verify_threshold`**: the signers are filtered and counted as they stand in the list. -/
def verifyThreshold (vs : BridgeValidatorSet) (minSignatures : ℕ) (signers : List Address) :
    Except BridgeError Unit :=
  let validCount := (signers.filter (isValidator vs)).length
  if validCount < minSignatures then .error (.insufficientSignatures minSignatures validCount)
  else .ok ()

end BridgeValidatorSet

structure BridgeRelayer where
  state : BridgeState
  validators : BridgeValidatorSet
  /-- The chains with a registered adapter. -/
  adapters : Finset ExternalChain

/-- A call of `submit_unlock` of the adapter of a chain, without the response. -/
structure UnlockRequest where
  chain : ExternalChain
  recipient : String
  tokenSymbol : String
  amount : ℕ
  deriving DecidableEq, Repr

namespace BridgeRelayer

/-- `calculate_fee`: 0.1 %, at least 1. -/
def calculateFee (amount : ℕ) : ℕ := max (amount / 1000) 1

/-- **`process_inbound_event`.** -/
def processInboundEvent (r : BridgeRelayer) (sourceChain : ExternalChain) (sender : String)
    (recipient : Address) (tokenSymbol : String) (amount : ℕ) (sourceTxHash : String)
    (now idNow : ℕ) : Except BridgeError BridgeTransfer × BridgeState :=
  r.state.recordInbound sourceChain sender recipient tokenSymbol amount (calculateFee amount)
    sourceTxHash now idNow

/-- **`process_outbound_request`.** -/
def processOutboundRequest (r : BridgeRelayer) (sender : Address) (destChain : ExternalChain)
    (recipient tokenSymbol : String) (amount now idNow : ℕ) :
    Except BridgeError BridgeTransfer × BridgeState :=
  if amount ≤ calculateFee amount then
    (.error (.invalidAmount "Amount must be greater than fee"), r.state)
  else
    r.state.initiateOutbound sender destChain recipient tokenSymbol amount (calculateFee amount)
      now idNow

/-- **`submit_confirmation`.** -/
def submitConfirmation (r : BridgeRelayer) (id : String) (validator : Address) (now : ℕ) :
    Except BridgeError BridgeTransfer × BridgeRelayer :=
  if BridgeValidatorSet.isValidator r.validators validator = false then
    (.error (.unauthorized "Not a bridge validator"), r)
  else
    let a := r.state.addConfirmation id now
    (a.1, { r with
      state := a.2
      validators := BridgeValidatorSet.recordConfirmation r.validators validator })

/-- The request to an adapter that finalizing a transfer makes. -/
def unlockRequest (chain : ExternalChain) (t : BridgeTransfer) : UnlockRequest :=
  ⟨chain, t.recipient, t.tokenSymbol, t.amount - t.fee⟩

/-- **`finalize_transfer`** as one function, with the adapters' answers. -/
def finalizeTransfer (r : BridgeRelayer) (id : String)
    (submitUnlock : UnlockRequest → Except BridgeError String) (now : ℕ) :
    Except BridgeError BridgeTransfer × BridgeState :=
  match r.state.getTransfer id with
  | none => (.error (.transferNotFound id), r.state)
  | some t =>
    if t.status ≠ .validated then (.error .transferAlreadyProcessed, r.state)
    else
      match t.direction with
      | .inbound => r.state.completeTransfer id s!"rustchain-mint-{id}" now
      | .outbound =>
        match ExternalChain.fromName t.destChain with
        | none => (.error (.unsupportedChain t.destChain), r.state)
        | some chain =>
          if chain ∈ r.adapters then
            match submitUnlock (unlockRequest chain t) with
            | .error e => (.error e, r.state)
            | .ok destTx => r.state.completeTransfer id destTx now
          else
            let name := chain.name.toLower
            r.state.completeTransfer id s!"pending-{name}-unlock-{id}" now

/-! ### The accesses of a call -/

end BridgeRelayer

/-- Where a call of `finalize_transfer` stands. -/
inductive FinalizeCall where
  /-- Before `get_transfer`. -/
  | reading
  /-- Before `submit_unlock`. -/
  | unlocking (request : UnlockRequest)
  /-- Before `complete_transfer`. -/
  | completing (destTx : String)
  | returned (result : Except BridgeError BridgeTransfer)

namespace FinalizeCall

/-- What a call does next, given the clone that `get_transfer` returned. -/
def afterRead (adapters : Finset ExternalChain) (id : String) : Option BridgeTransfer → FinalizeCall
  | none => .returned (.error (.transferNotFound id))
  | some t =>
    if t.status ≠ .validated then .returned (.error .transferAlreadyProcessed)
    else
      match t.direction with
      | .inbound => .completing s!"rustchain-mint-{id}"
      | .outbound =>
        match ExternalChain.fromName t.destChain with
        | none => .returned (.error (.unsupportedChain t.destChain))
        | some chain =>
          if chain ∈ adapters then .unlocking (BridgeRelayer.unlockRequest chain t)
          else
            let name := chain.name.toLower
            .completing s!"pending-{name}-unlock-{id}"

/-- What a call does next, given the answer of the adapter. -/
def afterUnlock : Except BridgeError String → FinalizeCall
  | .error e => .returned (.error e)
  | .ok destTx => .completing destTx

/-- One access of a call on the transfer `id`; `response` is what an adapter answers. -/
def access (adapters : Finset ExternalChain) (id : String) (response : Except BridgeError String)
    (now : ℕ) (s : BridgeState) : FinalizeCall → FinalizeCall × BridgeState
  | .reading => (afterRead adapters id (s.getTransfer id), s)
  | .unlocking _ => (afterUnlock response, s)
  | .completing destTx =>
    (.returned (s.completeTransfer id destTx now).1, (s.completeTransfer id destTx now).2)
  | .returned result => (.returned result, s)

/-- An access on its own, when the adapters answer as `submitUnlock` says. -/
def advance (adapters : Finset ExternalChain) (id : String)
    (submitUnlock : UnlockRequest → Except BridgeError String) (now : ℕ)
    (p : FinalizeCall × BridgeState) : FinalizeCall × BridgeState :=
  match p.1 with
  | .unlocking request => access adapters id (submitUnlock request) now p.2 p.1
  | _ => access adapters id (.ok "") now p.2 p.1

end FinalizeCall

end Rustchain.Bridge
