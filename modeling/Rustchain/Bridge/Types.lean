import Rustchain.Core.Types
import Rustchain.Lib.Maps

/-! # Types of the bridge

The external chains, the statuses of swaps and transfers, and the errors that the modelled
operations of the bridge return. -/

namespace Rustchain.Bridge

open Rustchain.Core

inductive ExternalChain where
  | bitcoin
  | ethereum
  | bnbChain
  | polygon
  | solana
  deriving DecidableEq, Repr

namespace ExternalChain

def name : ExternalChain → String
  | bitcoin => "Bitcoin"
  | ethereum => "Ethereum"
  | bnbChain => "BNB Chain"
  | polygon => "Polygon"
  | solana => "Solana"

def fromName (name : String) : Option ExternalChain :=
  match name.toLower with
  | "bitcoin" | "btc" => some bitcoin
  | "ethereum" | "eth" => some ethereum
  | "bnb" | "bnbchain" | "bsc" | "binance" => some bnbChain
  | "polygon" | "matic" => some polygon
  | "solana" | "sol" => some solana
  | _ => none

end ExternalChain

inductive BridgeError where
  | unsupportedChain (chain : String)
  | invalidAmount (msg : String)
  | htlcNotFound (id : String)
  | htlcAlreadyExists (id : String)
  | htlcExpired
  | htlcNotExpired
  | htlcAlreadyClaimed
  | htlcAlreadyRefunded
  | invalidPreimage
  | unauthorized (msg : String)
  | transferNotFound (id : String)
  | transferAlreadyProcessed
  | adapterError (msg : String)
  | insufficientSignatures (needed got : ℕ)
  | bridgePaused
  deriving DecidableEq, Repr

inductive HtlcStatus where
  | active
  | claimed
  | refunded
  | expired
  deriving DecidableEq, Repr

inductive BridgeDirection where
  | inbound
  | outbound
  deriving DecidableEq, Repr

inductive BridgeTransferStatus where
  | pending
  | sourceConfirmed
  | relaySubmitted
  | validated
  | completed
  | failed
  | expired
  | refunded
  deriving DecidableEq, Repr

structure BridgeTransfer where
  id : String
  direction : BridgeDirection
  sourceChain : String
  destChain : String
  sender : String
  recipient : String
  tokenSymbol : String
  amount : ℕ
  fee : ℕ
  status : BridgeTransferStatus
  sourceTxHash : Option String
  destTxHash : Option String
  confirmations : ℕ
  requiredConfirmations : ℕ
  createdAt : ℕ
  updatedAt : ℕ
  expiresAt : ℕ
  deriving DecidableEq, Repr

/-- The settings of the bridge that its operations read. -/
structure BridgeConfig where
  minSignatures : ℕ
  transferTimeoutSeconds : ℕ
  acceptInbound : Bool
  allowOutbound : Bool
  deriving DecidableEq, Repr

def BridgeConfig.default : BridgeConfig := ⟨2, 86400, true, true⟩

end Rustchain.Bridge
