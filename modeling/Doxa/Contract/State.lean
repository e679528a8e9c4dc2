import Doxa.Contract.Calldata
import Doxa.Contract.Imt

/-!
# The storage of `DoxaContract`

The state variables, the errors and the constructor. The mappings `pendingTxBatches` and
`pendingBridgeTxBatches` are the two rows of `pendingBatches`, and likewise for the
confirmed batches. Events are not part of the state. What lives outside the contract is
the environment: Keccak-256, the deployed `PoseidonGoldilocks` and the Groth16 verifiers,
each at its address.
-/

namespace Doxa.Contract

open Lib Function

inductive DepositStatus
  | none
  | pending
  | validated
  | withdrawn
  deriving DecidableEq, Repr

structure Deposit where
  value : U256
  recipient : Address
  status : DepositStatus
  depositBlock : U256
  assetId : U256
  deriving DecidableEq, Repr

/-- A mapping entry that was never written. -/
def Deposit.zero : Deposit := ⟨0, 0, .none, 0, 0⟩

structure Proof where
  proof : Fin 8 → U256
  commitments : Fin 2 → U256
  commitmentPok : Fin 2 → U256

structure PendingWithdrawal where
  recipient : Address
  assetIds : Fin NOTE_BATCH → U256
  amounts : Fin NOTE_BATCH → U256

/-- The two kinds of batches the contract keeps apart. -/
inductive BatchKind
  | tx
  | bridge
  deriving DecidableEq, Repr

structure Env where
  keccak256 : List (BitVec 8) → Bytes32
  compress : U256 → U256 → U256
  /-- `verifyProof` of the verifier at an address returns instead of reverting. -/
  verifyProof : Address → Proof → List U256 → Bool

/-- `msg.sender` and `block.number`. -/
structure Ctx where
  msgSender : Address
  blockNumber : U256

structure ContractState where
  operator : Address
  paused : Bool
  verifier : BatchKind → Address
  assetMap : U256 → Address
  tokenToAssetId : Address → U256
  mainPoolConfigRoot : U256
  configTreeDepth : ℕ
  subpoolOwners : BitVec 64 → Address
  subpoolRoots : BitVec 64 → U256
  treeDepth : ℕ
  imt : ImtState
  nullifiers : U256 → Bool
  pendingWithdrawals : List PendingWithdrawal
  deposits : Bytes32 → Deposit
  withdrawalDelay : U256
  pendingBatches : BatchKind → Bytes32 → Bool
  confirmedBatches : BatchKind → Bytes32 → Bool

inductive Error
  | notOperator
  | pausedErr
  | zeroAddress
  | invalidTreeDepth
  | rootNotConfirmed (root : Bytes32)
  | poolConfigMismatch
  | batchAlreadySubmitted (piCommitment : Bytes32)
  | batchNotFound (piCommitment : Bytes32)
  | batchAlreadyConfirmed (piCommitment : Bytes32)
  | proofVerificationFailed (piCommitment : Bytes32) (pubInputs : List U256)
  | nullifierAlreadyUsed (nullifier : Bytes32)
  | noteNotFound (noteCommitment : Bytes32)
  | invalidDepositState (noteCommitment : Bytes32)
  | duplicateNoteCommitment (noteCommitment : Bytes32)
  | invalidAmount
  | noTokenReceived
  | notDepositRecipient
  | tokenTransferFailed
  | withdrawalTooEarly (noteCommitment : Bytes32) (availableAtBlock : U256)
  | notSubpoolOwner (subpoolId : BitVec 64)
  | subpoolNotAssigned (subpoolId : BitVec 64)
  | subpoolIdZero
  | subpoolIdOutOfOrder
  | invalidSiblingPathLength (provided expected : ℕ)
  | invalidMerkleProof (subpoolId : BitVec 64)
  | assetIdZero
  | assetIdAlreadyRegistered (assetId : U256)
  | tokenAlreadyRegistered (token : Address)
  | assetNotFound (assetId : U256)
  | depositMismatch (noteCommitment : Bytes32)
  /-- `IMT_TreeFull`. -/
  | imt (e : ImtError)
  /-- Checked arithmetic. -/
  | overflow
  deriving DecidableEq, Repr

variable (env : Env)

def constructor (txVerifier bridgeTxVerifier poseidon operator : Address)
    (treeDepth configTreeDepth : ℕ) (withdrawalDelay : U256) : Except Error ContractState := do
  revertIf (txVerifier = 0) .zeroAddress
  revertIf (bridgeTxVerifier = 0) .zeroAddress
  revertIf (poseidon = 0) .zeroAddress
  revertIf (operator = 0) .zeroAddress
  revertIf (treeDepth = 0 ∨ MAX_TREE_DEPTH < treeDepth) .invalidTreeDepth
  revertIf (configTreeDepth = 0 ∨ MAX_TREE_DEPTH < configTreeDepth) .invalidTreeDepth
  return {
    operator := operator
    paused := false
    verifier := fun
      | .tx => txVerifier
      | .bridge => bridgeTxVerifier
    assetMap := fun _ => 0
    tokenToAssetId := fun _ => 0
    mainPoolConfigRoot := forLoop (fun _ z => env.compress z z) configTreeDepth 0
    configTreeDepth := configTreeDepth
    subpoolOwners := fun _ => 0
    subpoolRoots := fun _ => 0
    treeDepth := treeDepth
    imt := ImtState.empty.init env.compress treeDepth
    nullifiers := fun _ => false
    pendingWithdrawals := []
    deposits := fun _ => Deposit.zero
    withdrawalDelay := withdrawalDelay
    pendingBatches := fun _ _ => false
    confirmedBatches := fun _ _ => false }

variable (s : ContractState) (ctx : Ctx)

def onlyOperator : Except Error Unit := revertIf (ctx.msgSender ≠ s.operator) .notOperator

def whenNotPaused : Except Error Unit := revertIf (s.paused = true) .pausedErr

/-! ## The slots of a batch -/

def piCommitment (batchPreimage : Bytes) : Bytes32 := env.keccak256 batchPreimage.content

/-- `batchPoseidonRoot` of the header, decoded. -/
def batchRoot (data : Bytes) : U256 := glHashToU256 (cdB32 data 0)

/-- `root` of the header, decoded. -/
def stateRoot (data : Bytes) : U256 := glHashToU256 (cdB32 data 32)

def txSlotOff (slot : ℕ) : ℕ := TX_HEADER_SIZE + slot * TX_SLOT_SIZE

def wSlotOff (slot : ℕ) : ℕ := 96 + slot * W_SLOT_SIZE

def dSlotOff (slot : ℕ) : ℕ := D_SECTION_OFF + slot * D_SLOT_SIZE

/-- The nullifiers of a private-transaction slot: the account's, then the notes'. -/
def txNullifiers (data : Bytes) (slot : ℕ) : List Bytes32 :=
  cdB32 data (txSlotOff slot + TX_ACCIN_NULL_OFF) ::
    (List.range NOTE_BATCH).map fun j => cdB32 data (txSlotOff slot + TX_NOTE_IN_OFF + j * 32)

def wNullifier (data : Bytes) (slot : ℕ) : Bytes32 :=
  cdB32 data (wSlotOff slot + W_ACCIN_NULL_OFF)

def dNullifier (data : Bytes) (slot : ℕ) : Bytes32 :=
  cdB32 data (dSlotOff slot + D_ACCIN_NULL_OFF)

/-- The deposit a deposit slot names. -/
def noteKey (data : Bytes) (slot : ℕ) : Bytes32 := cdB32 data (dSlotOff slot + D_NOTE_COMM_OFF)

def readWithdrawal (data : Bytes) (slot : ℕ) : PendingWithdrawal where
  recipient := cdGLAddress data (wSlotOff slot + W_ETH_ADDR_OFF)
  assetIds := fun j => cdGLU64 data (wSlotOff slot + W_ASSET_ID_OFF + j * 8)
  amounts := fun j => cdGLU256 data (wSlotOff slot + W_AMT_OFF + j * 64)

end Doxa.Contract
