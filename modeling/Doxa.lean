import Doxa.Lib.Numerals
import Doxa.Lib.Execution
import Doxa.Lib.CompleteTree
import Doxa.Lib.Sponge
import Doxa.Lib.Quintic
import Doxa.Lib.DoubleOdd
import Doxa.Field.Goldilocks
import Doxa.Field.Gfp5
import Doxa.Hash.Poseidon
import Doxa.Curve.Ecgfp5
import Doxa.Curve.Schnorr
import Doxa.Contract.Calldata
import Doxa.Contract.Imt
import Doxa.Contract.State
import Doxa.Contract.Entry
import Doxa.Contract.Effects
import Doxa.Contract.Ledger
import Doxa.Contract.Deposits
import Doxa.Contract.ConfigTree
import Doxa.Trees.Tree
import Doxa.Trees.Agreement
import Doxa.Circuit.Builder
import Doxa.Circuit.Targets
import Doxa.Circuit.LeafSeparation
import Doxa.Circuit.Account
import Doxa.Circuit.U256
import Doxa.Circuit.Signature
import Doxa.Circuit.Forgery
import Doxa.Circuit.Offset
import Doxa.Circuit.Soundness
import Doxa.Circuit.PrivTx
import Doxa.Circuit.Transfer
import Doxa.Circuit.Conservation
import Doxa.Circuit.Published
import Doxa.Circuit.Authority
import Doxa.Circuit.BridgeTx
import Doxa.Circuit.Aggregator
import Doxa.Circuit.Padding
import Doxa.Lib.Writes
import Doxa.Lib.Program
import Doxa.Lib.Positional
import Doxa.Circuit.PublicInputs
import Doxa.Circuit.PreimageWords
import Doxa.Server.Encoding
import Doxa.Server.BatchHelper
import Doxa.Server.Batches
import Doxa.Server.Slots
import Doxa.Server.Layout
import Doxa.Contract.Decoding
import Doxa.Contract.Reads
import Doxa.Contract.BridgeAmounts
import Doxa.Contract.AssetIds
import Doxa.Trees.Proof
import Doxa.StateSync.Parser
import Doxa.StateSync.Entries
import Doxa.StateSync.State
import Doxa.StateSync.Steps
import Doxa.StateSync.Nullifiers
import Doxa.StateSync.Inclusion
import Doxa.StateSync.Chain
import Doxa.StateSync.Poll
import Doxa.StateSync.Fetch
import Doxa.StateSync.Mirror
import Doxa.StateSync.Retry
import Doxa.StateSync.Survival
import Doxa.Client.Account
import Doxa.Client.AssetTree
import Doxa.Client.Note
import Doxa.Client.Witness
import Doxa.Contract.Escrow
import Doxa.Contract.Queue
import Doxa.Subpool.Convert
import Doxa.Contract.Callbacks
import Doxa.Contract.Payer
import Doxa.Lib.Table
import Doxa.Subpool.Process
import Doxa.Contract.Reentrancy
import Doxa.Subpool.Forwarding
import Doxa.Subpool.Sequencer
import Doxa.Subpool.Authorization
import Doxa.Subpool.DepositKey
import Doxa.StateSync.Config
import Doxa.Trees.Runs
import Doxa.StateSync.Witness
import Doxa.Circuit.AssetTree
import Doxa.Contract.Compression
import Doxa.Circuit.KeyPoint
import Doxa.Circuit.GateDegree
import Doxa.Circuit.GateWitness
import Doxa.Circuit.U32
import Doxa.Circuit.Keccak
import Doxa.Server.Commitment
import Doxa.Server.GenericAggregator
import Doxa.Server.SubtreeRoot
import Doxa.Contract.BatchLeaf
import Doxa.Server.Lifecycle
import Doxa.Circuit.AddChain
import Doxa.Client.AssetCalls
import Doxa.Client.SpendBuilder
import Doxa.Client.SpendWitness
import Doxa.Client.SpendTargets
import Doxa.Client.SpendBuild
import Doxa.Client.Spend
import Doxa.Client.SpendSigning
import Doxa.Subpool.Codecs
import Doxa.StateSync.HashWords
import Doxa.Client.ConfigCalls
import Doxa.Hash.Evaluation
import Doxa.Client.Freshness
import Doxa.Subpool.Solvency
import Doxa.Client.Withdraw
import Doxa.Client.WithdrawSlots
import Doxa.Lib.JacobianLadder
import Doxa.Lib.Limbs
import Doxa.Lib.Primality
import Doxa.Schnorr.Completeness
import Doxa.Circuit.Bitwise
import Doxa.Schnorr.SignatureWitness
import Doxa.Lib.CyclicFlags
import Doxa.Lib.KeccakF
import Doxa.KeccakStark.Table
import Doxa.KeccakStark.Trace
import Doxa.KeccakStark.Forgery
import Doxa.KeccakStark.Gadget
import Doxa.KeccakStark.Challenges
import Doxa.Lib.SquareRoots
import Doxa.Verifier.Compression
import Doxa.Trees.Verification
import Doxa.Verifier.Proof
import Doxa.Verifier.PublicInputs
import Doxa.Client.Deposit
import Doxa.Client.Noteless
import Doxa.Client.FreshAcc
import Doxa.Client.FakeTx
