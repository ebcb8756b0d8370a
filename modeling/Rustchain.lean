import Rustchain.Lib.Machine
import Rustchain.Lib.Maps
import Rustchain.Lib.Runs
import Rustchain.Lib.Partial
import Rustchain.Lib.Checks
import Rustchain.Lib.Simulation
import Rustchain.Lib.Ranking
import Rustchain.Lib.MerkleTree
import Rustchain.Lib.Counting
import Rustchain.Lib.Keys
import Rustchain.Lib.Sha256
import Rustchain.Lib.Lottery
import Rustchain.Lib.Greedy
import Rustchain.Lib.Overlay
import Rustchain.Lib.Quorums
import Rustchain.Lib.BitcoinScript
import Rustchain.Lib.Parsing
import Rustchain.Lib.FixedWindow
import Rustchain.Lib.Payments
import Rustchain.Core.Types
import Rustchain.Core.Chain
import Rustchain.Core.Commitment
import Rustchain.Core.MerkleProofs
import Rustchain.Storage.Database
import Rustchain.Storage.Faults
import Rustchain.Vm.Context
import Rustchain.Vm.Host
import Rustchain.Vm.Engine
import Rustchain.Vm.Traces
import Rustchain.Vm.Relations
import Rustchain.Vm.Deltas
import Rustchain.Vm.TransferLedger
import Rustchain.Vm.Simulation
import Rustchain.Vm.Twins
import Rustchain.Vm.Faults
import Rustchain.Vm.Metering
import Rustchain.Vm.HostSafety
import Rustchain.Vm.GasAccounting
import Rustchain.Vm.StorageJournal
import Rustchain.Vm.Spending
import Rustchain.Consensus.Execution
import Rustchain.Consensus.State
import Rustchain.Consensus.Ledger
import Rustchain.Consensus.Block
import Rustchain.Consensus.Node
import Rustchain.Consensus.Staking
import Rustchain.Consensus.Conservation
import Rustchain.Consensus.Replay
import Rustchain.Consensus.ContractBalances
import Rustchain.Consensus.Restart
import Rustchain.Consensus.Deposits
import Rustchain.Consensus.ValidatorSets
import Rustchain.Consensus.Proposers
import Rustchain.Consensus.Liveness
import Rustchain.Consensus.Epochs
import Rustchain.Consensus.ChainStore
import Rustchain.Consensus.Contracts
import Rustchain.Consensus.Simulation
import Rustchain.Consensus.Twins
import Rustchain.Consensus.Replicas
import Rustchain.Consensus.ModuleCache
import Rustchain.Consensus.Splitting
import Rustchain.Consensus.Faults
import Rustchain.Consensus.Finality
import Rustchain.Consensus.FinalitySafety
import Rustchain.Consensus.TxPool
import Rustchain.Consensus.Slashing
import Rustchain.Consensus.Engine
import Rustchain.Consensus.EngineRuns
import Rustchain.Consensus.DoubleSigns
import Rustchain.Consensus.ActiveSets
import Rustchain.Consensus.Charges
import Rustchain.Consensus.Production
import Rustchain.Consensus.Headers
import Rustchain.Consensus.Quorums
import Rustchain.Consensus.VoteOrder
import Rustchain.Consensus.PoolIndex
import Rustchain.Consensus.Pruning
import Rustchain.Consensus.Genesis
import Rustchain.Consensus.FreshAddresses
import Rustchain.Consensus.Turns
import Rustchain.Consensus.GasLimits
import Rustchain.Consensus.StorageFlush
import Rustchain.Consensus.GasCharges
import Rustchain.Consensus.Withdrawals
import Rustchain.Consensus.Widths
import Rustchain.Consensus.Arithmetic
import Rustchain.Consensus.Supply
import Rustchain.Consensus.Lottery
import Rustchain.Consensus.Rotation
import Rustchain.Consensus.Selection
import Rustchain.Consensus.SelectionOrder
import Rustchain.Consensus.SelectionGas
import Rustchain.Bridge.Types
import Rustchain.Bridge.Htlc
import Rustchain.Bridge.State
import Rustchain.Bridge.Relay
import Rustchain.Bridge.Finalization
import Rustchain.Bridge.Operations
import Rustchain.Bridge.Threshold
import Rustchain.Bridge.Lifecycle
import Rustchain.Bridge.Payouts
import Rustchain.Bridge.HtlcScript
import Rustchain.Bridge.Accounting
import Rustchain.Bridge.SwapRaces
import Rustchain.Contracts.Sdk
import Rustchain.Contracts.Hosting
import Rustchain.Contracts.Amounts
import Rustchain.Contracts.StorageAgreement
import Rustchain.Contracts.Sha256
import Rustchain.Contracts.Sha256Checked
import Rustchain.Contracts.Bridge
import Rustchain.Contracts.Solvency
import Rustchain.Contracts.Settlement
import Rustchain.Contracts.Pause
import Rustchain.Contracts.SwapAgreement
import Rustchain.Contracts.Ownership
import Rustchain.Contracts.ValidatorCount
import Rustchain.Contracts.WrappedSupply
import Rustchain.Contracts.Arguments
import Rustchain.Contracts.TokenKeys
import Rustchain.Contracts.Token
import Rustchain.Api.Wallet
import Rustchain.Api.Nonces
import Rustchain.Api.CallData
import Rustchain.Api.Blocks
import Rustchain.Api.RateLimit
