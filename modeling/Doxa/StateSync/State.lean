import Doxa.Lib.Writes
import Doxa.StateSync.Parser
import Doxa.Trees.Agreement
import Doxa.Trees.Proof

/-!
# The state of state-sync

`StateSyncState` mirrors the state tree and indexes the batches, commitments and nullifiers
of the chain. A batch that was seen in a submission is pending (`applyPreimage`), and
`confirmBatch` confirms it. The maps are functions to `Option`, the sets functions to `Bool`;
the maps of the two kinds of batches are the rows of `pendingBatches` and `confirmedBatches`.
A `[u8; 32]` is the number its bytes spell. The mirror of the config tree and the deposit index
are not read by these functions and are left out, as are the log messages.

A failed operation leaves the state as it was: a full tree is found before anything is written,
and inserting the 512 leaves of a batch cannot fail. A panic poisons the lock around the
state, after which no operation and no query runs.
-/

namespace Doxa.StateSync

open Lib Trees Contract Function

inductive BatchKind
  | transaction
  | bridgeTx
  deriving DecidableEq, Repr

structure CommitmentLocation where
  piCommitment : Bytes32
  subtreeLeafIndex : ℕ
  confirmed : Bool
  deriving DecidableEq, Repr

structure StateSyncState where
  stateTree : MerkleTree HashOut
  batchRootToLeafIndex : Bytes32 → Option ℕ
  commitmentToBatch : HashOut → Option CommitmentLocation
  confirmedRoots : HashOut → Bool
  /-- The leaves of a pending batch, `vec![HashOutput::default(); 512]` at first. -/
  pendingBatchLeaves : Bytes32 → Option (Vector HashOut 512)
  confirmedBatchSubtrees : Bytes32 → Option (MerkleTree HashOut)
  piToBatchRoot : Bytes32 → Option HashOut
  pendingBatches : BatchKind → Bytes32 → Option (List (BitVec 8))
  confirmedBatches : BatchKind → Bytes32 → Bool
  confirmedNullifiers : HashOut → Bool
  pendingNullifiers : HashOut → Option Bytes32
  lastSyncedBlock : ℕ

inductive SyncError
  | tree (e : TreeError)
  | preimageTooShort
  /-- A call of the node failed. -/
  | rpc
  | calldataNotDecoded
  | submissionNotFound
  | limbOutOfRange
  | configTreeDepth
  | panic
  deriving DecidableEq, Repr

/-- Four big-endian 64-bit numbers. -/
def hashToBytes32 (h : HashOut) : Bytes32 :=
  BitVec.ofNat 256 (bigEndian 64 (fun i => if hi : i < 4 then (h ⟨i, hi⟩).val else 0) 4)

variable (perm : State → State)

def StateSyncState.new (treeDepth : ℕ) : Except SyncError StateSyncState := do
  let stateTree ← (MerkleTree.new (hashOutput perm) treeDepth).mapError .tree
  let genesisRoot ← (stateTree.root (hashOutput perm)).mapError .tree
  return {
    stateTree := stateTree
    batchRootToLeafIndex := fun _ => none
    commitmentToBatch := fun _ => none
    confirmedRoots := update (fun _ => false) genesisRoot true
    pendingBatchLeaves := fun _ => none
    confirmedBatchSubtrees := fun _ => none
    piToBatchRoot := fun _ => none
    pendingBatches := fun _ _ => none
    confirmedBatches := fun _ _ => false
    confirmedNullifiers := fun _ => false
    pendingNullifiers := fun _ => none
    lastSyncedBlock := 0 }

/-! ## Pending batches -/

namespace StateSyncState

variable (self : StateSyncState)

def addPendingCommitment (commitment : HashOut) (piCommitment : Bytes32) (subtreeLeafIndex : ℕ) :
    StateSyncState :=
  let leaves := (self.pendingBatchLeaves piCommitment).getD (Vector.replicate 512 0)
  let leaves := if h : subtreeLeafIndex < 512 then leaves.set subtreeLeafIndex commitment
    else leaves
  { self with
    commitmentToBatch := update self.commitmentToBatch commitment
      (some ⟨piCommitment, subtreeLeafIndex, false⟩)
    pendingBatchLeaves := update self.pendingBatchLeaves piCommitment (some leaves) }

def addPendingNullifier (nullifier : HashOut) (piCommitment : Bytes32) : StateSyncState :=
  { self with
    pendingNullifiers := update self.pendingNullifiers nullifier (some piCommitment) }

/-- The loops over the slots. A bridge batch adds the nullifier of a slot right after its
commitment, but the two are kept in different maps. -/
def addBatch (batch : ParsedBatch) (piCommitment : Bytes32) : StateSyncState :=
  batch.nullifiers.foldl (fun s n => s.addPendingNullifier n piCommitment)
    (batch.commitments.foldl (fun s c => s.addPendingCommitment c.1 piCommitment c.2) self)

end StateSyncState

/-- The length `validate_tx_preimage_len` and `validate_bridge_preimage_len` ask for. -/
def preimageLen : BatchKind → ℕ
  | .transaction => TX_PREIMAGE_LEN
  | .bridgeTx => BRIDGE_TX_PREIMAGE_LEN

def parsePreimage : BatchKind → List (BitVec 8) → Option ParsedBatch
  | .transaction => parseTxPreimage
  | .bridgeTx => parseBridgePreimage

/-- `apply_tx_preimage` and `apply_bridge_preimage`. -/
def applyPreimage (kind : BatchKind) (preimage : List (BitVec 8)) (piCommitment : Bytes32)
    (s : StateSyncState) : Except SyncError StateSyncState :=
  if preimage.length < preimageLen kind then .error .preimageTooShort
  else match parsePreimage kind preimage with
    | none => .error .panic
    | some batch =>
      .ok { s.addBatch batch piCommitment with
        pendingBatches := update s.pendingBatches kind
          (update (s.pendingBatches kind) piCommitment (some preimage)) }

/-! ## Confirmation -/

namespace StateSyncState

variable (self : StateSyncState)

def insertStateTreeLeaf (batchRoot : HashOut) : Except SyncError (StateSyncState × ℕ) := do
  let (stateTree, i) ← (self.stateTree.insert (hashOutput perm) batchRoot).mapError .tree
  return ({ self with
    stateTree := stateTree
    batchRootToLeafIndex :=
      update self.batchRootToLeafIndex (hashToBytes32 batchRoot) (some i) }, i)

/-- The subtree of a batch whose leaves are pending. -/
def buildSubtree (piCommitment : Bytes32) : Except SyncError StateSyncState :=
  match self.pendingBatchLeaves piCommitment with
  | none => .ok self
  | some leaves => do
    let subtree ← (MerkleTree.insertAll (hashOutput perm) BATCH_SUBTREE_DEPTH
      leaves.toList).mapError .tree
    let _ ← (subtree.root (hashOutput perm)).mapError SyncError.tree
    return { self with
      pendingBatchLeaves := update self.pendingBatchLeaves piCommitment none
      confirmedBatchSubtrees := update self.confirmedBatchSubtrees piCommitment (some subtree) }

def markCommitments (piCommitment : Bytes32) : StateSyncState :=
  { self with
    commitmentToBatch := fun c => (self.commitmentToBatch c).map fun loc =>
      if loc.piCommitment = piCommitment then { loc with confirmed := true } else loc }

/-- Pending → confirmed. -/
def moveBatch (piCommitment : Bytes32) (kind : BatchKind) : StateSyncState :=
  { self with
    pendingBatches := update self.pendingBatches kind
      (update (self.pendingBatches kind) piCommitment none)
    confirmedBatches := update self.confirmedBatches kind
      (update (self.confirmedBatches kind) piCommitment true) }

def promoteBatch (piCommitment : Bytes32) : StateSyncState :=
  if (self.pendingBatches .transaction piCommitment).isSome then
    self.moveBatch piCommitment .transaction
  else if (self.pendingBatches .bridgeTx piCommitment).isSome then
    self.moveBatch piCommitment .bridgeTx
  else self

def confirmNullifiers (piCommitment : Bytes32) : StateSyncState :=
  { self with
    pendingNullifiers := fun n =>
      if self.pendingNullifiers n = some piCommitment then none else self.pendingNullifiers n
    confirmedNullifiers := fun n =>
      self.confirmedNullifiers n || self.pendingNullifiers n = some piCommitment }

def confirmBatch (piCommitment : Bytes32) (batchRoot newTreeRoot : HashOut) :
    Except SyncError StateSyncState := do
  let (s, _) ← self.insertStateTreeLeaf perm batchRoot
  -- a different root is only logged, here and for the subtree
  let _ ← (s.stateTree.root (hashOutput perm)).mapError SyncError.tree
  let s ← s.buildSubtree perm piCommitment
  let s := { s with piToBatchRoot := update s.piToBatchRoot piCommitment (some batchRoot) }
  let s := ((s.markCommitments piCommitment).promoteBatch piCommitment).confirmNullifiers
    piCommitment
  return { s with confirmedRoots := update s.confirmedRoots newTreeRoot true }

end StateSyncState

/-! ## Queries -/

inductive CommitmentStatus
  | confirmed (batchSubtreePath stateTreePath : MerkleProof HashOut)
  | pending (piCommitment : Bytes32)
  | notFound

inductive NullifierStatus
  | confirmed
  | pending (piCommitment : Bytes32)
  | notFound
  deriving DecidableEq, Repr

inductive BatchStatus
  | confirmed
  | pending
  | notFound
  deriving DecidableEq, Repr

namespace StateSyncState

variable (self : StateSyncState)

def getBatchRootForCommitment (commitment : HashOut) : Option HashOut := do
  let loc ← self.commitmentToBatch commitment
  self.piToBatchRoot loc.piCommitment

/-- The proof, or nothing when the commitment or its subtree is unknown. -/
def getBatchSubtreeProof (commitment : HashOut) : Option (MerkleProof HashOut) := do
  let loc ← self.commitmentToBatch commitment
  let subtree ← self.confirmedBatchSubtrees loc.piCommitment
  (subtree.merkleProof (hashOutput perm) loc.subtreeLeafIndex).toOption

/-- The two paths of a commitment that is marked confirmed. -/
def confirmedPaths (commitment : HashOut) : Option (MerkleProof HashOut × MerkleProof HashOut) := do
  let batchRoot ← self.getBatchRootForCommitment commitment
  let batchSubtreePath ← self.getBatchSubtreeProof perm commitment
  let batchLeafIndex ← self.batchRootToLeafIndex (hashToBytes32 batchRoot)
  let stateTreePath ← (self.stateTree.merkleProof (hashOutput perm) batchLeafIndex).toOption
  return (batchSubtreePath, stateTreePath)

def getCommitmentStatus (commitment : HashOut) : CommitmentStatus :=
  match self.commitmentToBatch commitment with
  | none => .notFound
  | some location =>
    if location.confirmed then
      match self.confirmedPaths perm commitment with
      | some (batchSubtreePath, stateTreePath) => .confirmed batchSubtreePath stateTreePath
      | none => .notFound
    else .pending location.piCommitment

def getNullifierStatus (nullifier : HashOut) : NullifierStatus :=
  if self.confirmedNullifiers nullifier then .confirmed
  else match self.pendingNullifiers nullifier with
    | some piCommitment => .pending piCommitment
    | none => .notFound

def getBatchStatus (piCommitment : Bytes32) (kind : BatchKind) : BatchStatus :=
  if self.confirmedBatches kind piCommitment then .confirmed
  else if (self.pendingBatches kind piCommitment).isSome then .pending
  else .notFound

end StateSyncState

end Doxa.StateSync
