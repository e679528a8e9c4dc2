import Doxa.Circuit.PublicInputs
import Doxa.Server.Encoding

/-!
# Batches on the server

A batch collects proofs that share their state root and configuration root, is padded to
its capacity with proofs of fake transactions, and fixes the Poseidon root of all output
commitments. Its commitment is the hash of `piPreimageWords`. A proof counts here only by
its public inputs.

What fails leaves the batch as it was, with one exception: when the padding proof of the
deposit half cannot be made, the withdrawal half has already been padded.
-/

namespace Doxa.Server

open Lib Circuit

variable (perm : State → State)

/-! ## Proofs -/

structure PrivTxProof where
  publicInputs : List F
  length_eq : publicInputs.length = TxCircuitPublicTargets.PI_LEN

structure DepositProof where
  publicInputs : List F
  length_eq : publicInputs.length = DepositTxPublicTargets.PI_LEN

structure WithdrawProof where
  publicInputs : List F
  length_eq : publicInputs.length = WithdrawTxPublicTargets.PI_LEN

inductive BridgeTxProof
  | withdrawTxProof (p : WithdrawProof)
  | depositTxProof (p : DepositProof)

/-- `pis` of `PIHelper`. -/
def BridgeTxProof.pis : BridgeTxProof → List F
  | .withdrawTxProof p => p.publicInputs
  | .depositTxProof p => p.publicInputs

section PIHelper

variable (pis : List F)

def actRoot : HashOut := fieldsOf pis 0 4

def mainpoolConfigRoot : HashOut := fieldsOf pis 4 4

/-- What the proofs of a batch share. -/
def commonRoots : HashOut × HashOut := (actRoot pis, mainpoolConfigRoot pis)

def accoutCommitment : HashOut := fieldsOf pis 13 4

def batchCommonPis : List F := slice pis 0 8

def batchUniquePis : List F := pis.drop 8

end PIHelper

/-- The account commitment, then the note commitments. -/
def privOutputCommitments (pis : List F) : List HashOut :=
  accoutCommitment pis :: List.ofFn fun i : Fin NOTE_BATCH => fieldsOf pis (45 + i.val * 4) 4

def bridgeOutputCommitments (pis : List F) : List HashOut := [accoutCommitment pis]

def PrivTxProof.outputCommitments (p : PrivTxProof) : List HashOut :=
  privOutputCommitments p.publicInputs

def BridgeTxProof.outputCommitments (p : BridgeTxProof) : List HashOut :=
  bridgeOutputCommitments p.pis

/-! ## The native subtree root -/

/-- One round of the loop of `compute_root_native`. -/
def nativeParents (leaves : List HashOut) : List HashOut :=
  (List.range (leaves.length / 2)).map fun i =>
    hash2to1Swapped perm (leaves.getD (2 * i) 0) (leaves.getD (2 * i + 1) 0) false

theorem nativeParents_eq (leaves : List HashOut) :
    nativeParents perm leaves = parents perm leaves := by
  unfold nativeParents parents
  apply List.map_congr_left
  intro i _
  rw [nodeHash_eq]
  rfl

def computeRootNative (leaves : List HashOut) : HashOut :=
  if 1 < leaves.length then computeRootNative (nativeParents perm leaves) else leaves.getD 0 0
termination_by leaves.length
decreasing_by
  rw [nativeParents_eq, parents_length]
  omega

/-- The native loop computes what the subtree circuit constrains. -/
theorem computeRootNative_eq (leaves : List HashOut) :
    computeRootNative perm leaves = merkleRoot perm leaves := by
  fun_induction merkleRoot perm leaves with
  | case1 leaves hlong ih => rw [computeRootNative, if_pos hlong, nativeParents_eq, ih]
  | case2 leaves hshort => rw [computeRootNative, if_neg hshort]

/-! ## The preimage -/

inductive BatchError
  | batchFull
  | alreadyFinalized
  | actRootMismatch
  | mainpoolConfigRootMismatch
  | withdrawHalfFull
  | depositHalfFull
  | batchEmpty
  | noProofs
  | notFinalized
  | needsFinalize
  | leafCountMismatch (got : ℕ)
  | proveFailed

/-- The elements of the preimage: the batch root, the common public inputs of the first
proof, the unique ones of every proof. -/
def preimageFields (root : HashOut) (proofs : List (List F)) : List F :=
  List.ofFn root ++ batchCommonPis (proofs.getD 0 []) ++ proofs.flatMap batchUniquePis

/-- `pi_preimage_words` of a batch with the given `commitments_subtree_root` and `proofs`. -/
def piPreimageWords (root : Except BatchError HashOut) (proofs : List (List F)) :
    Except BatchError (List (BitVec 32)) := do
  let root ← root
  return pushFields (List.ofFn root) ++ pushFields (batchCommonPis (proofs.getD 0 [])) ++
    proofs.flatMap fun p => pushFields (batchUniquePis p)

def piPreimageBytes (root : Except BatchError HashOut) (proofs : List (List F)) :
    Except BatchError (List (BitVec 8)) := do
  let words ← piPreimageWords root proofs
  return words.flatMap toBeBytes

theorem piPreimageWords_ok (root : HashOut) (proofs : List (List F)) :
    piPreimageWords (.ok root) proofs = .ok (pushFields (preimageFields root proofs)) := by
  rw [preimageFields, pushFields_append, pushFields_append, pushFields_flatMap]
  rfl

theorem piPreimageBytes_ok (root : HashOut) (proofs : List (List F)) :
    piPreimageBytes (.ok root) proofs = .ok ((preimageFields root proofs).flatMap fieldBytes) := by
  rw [piPreimageBytes, piPreimageWords_ok, ← flatMap_toBeBytes_pushFields]
  rfl

/-- `batch_poseidon_root`. -/
def batchPoseidonRoot (isFull : Bool) (leaves : List HashOut) : Except BatchError HashOut := do
  revertIf (isFull = false) .needsFinalize
  revertIf (leaves.length ≠ SUBTREE_BATCHSIZE) (.leafCountMismatch leaves.length)
  return computeRootNative perm leaves

/-- What makes the padding proofs: a prover that may fail, and whose proofs carry the roots it
was given. -/
structure PaddingProver {Proof : Type} (pis : Proof → List F) where
  prove : HashOut → HashOut → Except BatchError Proof
  roots : ∀ root config p, prove root config = .ok p → commonRoots (pis p) = (root, config)

end Doxa.Server
