import Doxa.Lib.InPlace
import Doxa.Server.BatchHelper
import Doxa.Trees.Proof
import Doxa.Trees.Agreement

/-!
# The root of a batch

`compute_root_native`, `SubtreeRootCircuit::build` and `batch_merkle_root_circuit` fold the
leaves in one buffer, level by level; they differ in how they hash a node. On `2^k` leaves
the three are the root of the complete tree, and so is the root of a `MerkleTree` of depth
`k` after the leaves were inserted. A tree of depth zero has no layer: it takes its one leaf,
and has no root.
-/

namespace Doxa.Server

open Lib Circuit Trees

variable (perm : State → State)

/-! ## The three loops -/

/-- `SubtreeRootCircuit::compute_root_native`; a failed assertion is `none`. -/
def SubtreeRootCircuit.computeRootNative (leaves : List HashOut) : Option HashOut :=
  if leaves = [] then none
  else if ¬ leaves.length.isPowerOfTwo then none
  else foldLevels (fun left right => hash2to1Swapped perm left right false) leaves

/-- The target that `SubtreeRootCircuit::build` connects with `root`. -/
def SubtreeRootCircuit.build (leaves : List HashOut) : Option HashOut :=
  if ¬ leaves.length.isPowerOfTwo then none
  else foldLevels (fun left right => hash2to1SwappedCircuit perm left right 0) leaves

/-- `hash_2_to_1_circuit`. -/
def hash2to1Circuit (left right : HashOut) : HashOut :=
  hashNoPad perm (List.ofFn left ++ List.ofFn right)

/-- `merkle_root_circuit`. -/
def merkleRootCircuit (leafHash : HashOut) (siblings : List HashOut) (path : List F) :
    Option HashOut :=
  if siblings.length ≠ path.length then none
  else some ((siblings.zip path).foldl
    (fun current step => hash2to1SwappedCircuit perm current step.1 step.2) leafHash)

def batchMerkleRootCircuit (leaves upperSiblings : List HashOut) (path : List F) :
    Option HashOut :=
  if ¬ leaves.length.isPowerOfTwo then none
  else if upperSiblings.length ≠ path.length then none
  else do
    let root ← foldLevels (hash2to1Circuit perm) leaves
    if upperSiblings = [] then return root
    merkleRootCircuit perm root upperSiblings path

/-! ## One root -/

variable {perm} {k : ℕ} {leaves : List HashOut}

theorem nodeHash_eq_node : nodeHash perm = (hashOutput perm).node :=
  funext fun left => funext fun right => nodeHash_eq perm left right

/-- The loop over `2^k` leaves, for any of the node hashes. -/
theorem foldLevels_leaves (hlen : leaves.length = 2 ^ k) :
    foldLevels (hashOutput perm).node leaves =
      some (node (hashOutput perm).node ((hashOutput perm).leafOf leaves) k 0) := by
  have hroot : foldLevels (hashOutput perm).node leaves =
      some (node (hashOutput perm).node ((hashOutput perm).leafOf leaves) (0 + k) 0) :=
    foldLevels_eq_node k 0 hlen fun i hi => leafOf_getElem? (hlen ▸ hi)
  rwa [Nat.zero_add] at hroot

theorem computeRootNative_leaves (hlen : leaves.length = 2 ^ k) :
    SubtreeRootCircuit.computeRootNative perm leaves =
      some (node (hashOutput perm).node ((hashOutput perm).leafOf leaves) k 0) := by
  have hne : leaves ≠ [] := by
    rintro rfl
    exact absurd hlen (Nat.two_pow_pos k).ne
  rw [SubtreeRootCircuit.computeRootNative, if_neg hne, if_neg (not_not_intro ⟨k, hlen⟩)]
  exact foldLevels_leaves hlen

theorem build_leaves (hlen : leaves.length = 2 ^ k) :
    SubtreeRootCircuit.build perm leaves =
      some (node (hashOutput perm).node ((hashOutput perm).leafOf leaves) k 0) := by
  rw [SubtreeRootCircuit.build, if_neg (not_not_intro ⟨k, hlen⟩), ← foldLevels_leaves hlen,
    ← nodeHash_eq_node]
  rfl

/-- Above the leaves `batch_merkle_root_circuit` goes on along the path. -/
theorem batchMerkleRootCircuit_leaves (hlen : leaves.length = 2 ^ k) {upperSiblings : List HashOut}
    {path : List F} (hpath : upperSiblings.length = path.length) :
    batchMerkleRootCircuit perm leaves upperSiblings path =
      merkleRootCircuit perm (node (hashOutput perm).node ((hashOutput perm).leafOf leaves) k 0)
        upperSiblings path := by
  have hfold : foldLevels (hash2to1Circuit perm) leaves =
      some (node (hashOutput perm).node ((hashOutput perm).leafOf leaves) k 0) :=
    foldLevels_leaves hlen
  rw [batchMerkleRootCircuit, if_neg (not_not_intro ⟨k, hlen⟩), if_neg (not_not_intro hpath), hfold]
  cases upperSiblings with
  | nil =>
    rw [merkleRootCircuit, if_neg (not_not_intro hpath)]
    rfl
  | cons sibling upperSiblings => rfl

/-- The loop in one buffer computes what the round by round form does. -/
theorem build_rounds (hlen : leaves.length = 2 ^ k) :
    SubtreeRootCircuit.build perm leaves = some (merkleRoot perm leaves) := by
  have hroot : merkleRoot perm leaves =
      node (nodeHash perm) ((hashOutput perm).leafOf leaves) (0 + k) 0 :=
    merkleRoot_eq_node k leaves _ hlen 0 fun _ _ => rfl
  rw [build_leaves hlen, hroot, Nat.zero_add, nodeHash_eq_node]

theorem computeRootNative_rounds (hlen : leaves.length = 2 ^ k) :
    SubtreeRootCircuit.computeRootNative perm leaves = some (computeRootNative perm leaves) := by
  rw [computeRootNative_leaves hlen, computeRootNative_eq, ← build_leaves hlen, build_rounds hlen]

/-- The subtree circuit of a batch is satisfied when its root is the one the loop builds. -/
theorem satisfied_iff_build (t : SubtreeRootTargets) :
    t.Satisfied perm ↔ SubtreeRootCircuit.build perm (List.ofFn t.leaves) = some t.root := by
  have hlen : (List.ofFn t.leaves).length = 2 ^ SUBTREE_DEPTH := by
    rw [List.length_ofFn]
    rfl
  rw [build_rounds hlen, Option.some.injEq]
  rfl

end Doxa.Server
