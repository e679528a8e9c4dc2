import Doxa.Contract.Compression
import Doxa.Contract.Entry
import Doxa.Server.SubtreeRoot

/-!
# Leaves of a validated batch

`verifyBatchLeaf` climbs from a leaf along nine siblings and compares with the root of a
validated batch. `compress` reads its words limb by limb modulo the field order, so what the
walk computes is the walk over the digests the words stand for, and every word that stands
for the leaf is accepted in its place.
-/

namespace Doxa.Contract

open Lib Server Trees PoseidonGoldilocks

variable (env : Env) (s : ContractState)

/-- The walk of `verifyBatchLeaf`. -/
def batchWalk (leafIndex : U256) (siblings : List U256) (depth : ℕ) (leaf : U256) : U256 :=
  forLoop (fun i node =>
    if (leafIndex.toNat >>> i) &&& 1 = 0 then env.compress node (siblings.getD i 0)
    else env.compress (siblings.getD i 0) node) depth leaf

def verifyBatchLeaf (batchRoot leaf leafIndex : U256) (siblings : List U256) : Bool :=
  if ¬ s.imt.validatedBatchRoots batchRoot then false
  else if siblings.length ≠ BATCH_SUBTREE_DEPTH then false
  else batchWalk env leafIndex siblings BATCH_SUBTREE_DEPTH leaf == batchRoot

variable {env s}

theorem batchWalk_eq_climb (leafIndex : U256) (siblings : List U256) (leaf : U256) (k : ℕ) :
    batchWalk env leafIndex siblings k leaf =
      climb env.compress (fun l => siblings.getD l 0) leafIndex.toNat.testBit leaf k :=
  forLoop_climb _ _ _ _

/-! ## The walk over the digests -/

/-- The environment with `PoseidonGoldilocks` at its address. -/
def deployedEnv (env : Env) : Env := { env with compress := compress }

theorem compress_eq_pack (left right : U256) :
    compress left right = packLE ((hashOutput poseidon).node (unpackLE left) (unpackLE right)) :=
  compress_eq_compressLE left right

theorem unpackLE_climb (sib : ℕ → U256) (bit : ℕ → Bool) (leaf : U256) (k : ℕ) :
    unpackLE (climb compress sib bit leaf k) =
      climb (hashOutput poseidon).node (fun l => unpackLE (sib l)) bit (unpackLE leaf) k := by
  refine map_climb unpackLE (fun left right => ?_) sib bit leaf k
  rw [compress_eq_pack, unpackLE_packLE]

/-- Above the leaf the walk holds packed digests only. -/
theorem climb_eq_packLE {sib : ℕ → U256} {bit : ℕ → Bool} {leaf : U256} {k : ℕ} (hk : 0 < k)
    {root : HashOut} : climb compress sib bit leaf k = packLE root ↔
      climb (hashOutput poseidon).node (fun l => unpackLE (sib l)) bit (unpackLE leaf) k = root := by
  constructor
  · intro h
    rw [← unpackLE_climb, h, unpackLE_packLE]
  · rintro rfl
    rw [← unpackLE_climb]
    obtain ⟨k, rfl⟩ : ∃ n, k = n + 1 := ⟨k - 1, by omega⟩
    rw [climb]
    split
    · rw [compress_eq_pack, unpackLE_packLE]
    · rw [compress_eq_pack, unpackLE_packLE]

/-! ## What is accepted -/

section Accepted

variable {leaves : List HashOut} {i : ℕ}

/-- The siblings of position `i` in the tree of the batch. -/
def batchPath (leaves : List HashOut) (i : ℕ) : List HashOut :=
  (proofOf (hashOutput poseidon) BATCH_SUBTREE_DEPTH leaves i).siblings

/-- The root of the tree of the batch. -/
def batchTreeRoot (leaves : List HashOut) : HashOut :=
  node (hashOutput poseidon).node ((hashOutput poseidon).leafOf leaves) BATCH_SUBTREE_DEPTH 0

theorem batchPath_length : (batchPath leaves i).length = BATCH_SUBTREE_DEPTH := by
  simp [batchPath, proofOf]

theorem verifyBatchLeaf_iff_climb (hvalid : s.imt.validatedBatchRoots (packLE (batchTreeRoot leaves)))
    (hi : i < 2 ^ BATCH_SUBTREE_DEPTH) (leaf : U256) (siblings : List U256) :
    verifyBatchLeaf (deployedEnv env) s (packLE (batchTreeRoot leaves)) leaf (BitVec.ofNat 256 i)
        siblings = true ↔
      siblings.length = BATCH_SUBTREE_DEPTH ∧
        climb (hashOutput poseidon).node (fun l => unpackLE (siblings.getD l 0)) i.testBit
          (unpackLE leaf) BATCH_SUBTREE_DEPTH = batchTreeRoot leaves := by
  have hindex : (BitVec.ofNat 256 i).toNat = i :=
    (BitVec.toNat_ofNat _ _).trans (Nat.mod_eq_of_lt (hi.trans (by decide)))
  rw [verifyBatchLeaf, if_neg (not_not_intro hvalid), batchWalk_eq_climb, hindex]
  by_cases hlen : siblings.length = BATCH_SUBTREE_DEPTH
  · rw [if_neg (not_not_intro hlen), beq_iff_eq]
    exact (climb_eq_packLE (by decide)).trans (iff_and_self.mpr fun _ => hlen)
  · rw [if_pos hlen]
    simp [hlen]

/-- The leaf and the path of the tree are accepted, whatever words stand for them. -/
theorem verifyBatchLeaf_path (hvalid : s.imt.validatedBatchRoots (packLE (batchTreeRoot leaves)))
    (hi : i < 2 ^ BATCH_SUBTREE_DEPTH) {leaf : U256} {siblings : List U256}
    (hleaf : unpackLE leaf = leaves.getD i 0) (hpath : siblings.map unpackLE = batchPath leaves i) :
    verifyBatchLeaf (deployedEnv env) s (packLE (batchTreeRoot leaves)) leaf (BitVec.ofNat 256 i)
      siblings = true := by
  have hlen : siblings.length = BATCH_SUBTREE_DEPTH := by
    have hpathLen : (batchPath leaves i).length = BATCH_SUBTREE_DEPTH := batchPath_length
    rw [← hpathLen, ← hpath, List.length_map]
  refine (verifyBatchLeaf_iff_climb hvalid hi leaf siblings).mpr ⟨hlen, ?_⟩
  have hsib : ∀ l < BATCH_SUBTREE_DEPTH, unpackLE (siblings.getD l 0) =
      siblingOf (hashOutput poseidon).node ((hashOutput poseidon).leafOf leaves) i l := by
    intro l hl
    have hget : (siblings.map unpackLE)[l]? = (batchPath leaves i)[l]? := by rw [hpath]
    rw [List.getElem?_map, List.getElem?_eq_getElem (by omega), batchPath, proofOf,
      List.getElem?_map, List.getElem?_range hl, Option.map_some, Option.map_some,
      Option.some.injEq] at hget
    rw [List.getD_eq_getElem _ _ (by omega), hget]
  rw [climb_siblings hsib, hleaf, Nat.div_eq_of_lt hi]
  change node _ (Function.update _ i ((hashOutput poseidon).leafOf leaves i)) _ _ = _
  rw [Function.update_eq_self]
  rfl

/-- Nothing else is accepted without a collision on the path. -/
theorem verifyBatchLeaf_binds (hvalid : s.imt.validatedBatchRoots (packLE (batchTreeRoot leaves)))
    (hi : i < 2 ^ BATCH_SUBTREE_DEPTH) {leaf : U256} {siblings : List U256}
    (h : verifyBatchLeaf (deployedEnv env) s (packLE (batchTreeRoot leaves)) leaf
      (BitVec.ofNat 256 i) siblings = true) :
    (unpackLE leaf = leaves.getD i 0 ∧ siblings.map unpackLE = batchPath leaves i) ∨
      ∃ l < BATCH_SUBTREE_DEPTH, PathCollision (hashOutput poseidon).node
        (fun j => leaves.getD j 0) (fun l => unpackLE (siblings.getD l 0)) (unpackLE leaf) i l := by
  obtain ⟨hlen, hclimb⟩ := (verifyBatchLeaf_iff_climb hvalid hi leaf siblings).mp h
  rw [batchTreeRoot, ← Nat.div_eq_of_lt hi] at hclimb
  rcases isPath_of_climb hclimb with ⟨hleaf, hsib⟩ | hcollision
  · refine .inl ⟨hleaf, List.ext_getElem ?_ fun l hl _ => ?_⟩
    · rw [List.length_map, hlen, batchPath_length]
    · have hl' : l < siblings.length := by simpa using hl
      have hget : unpackLE (siblings.getD l 0) = _ := hsib l (hlen ▸ hl')
      rw [List.getD_eq_getElem _ _ hl'] at hget
      simp [batchPath, proofOf, hget]
  · exact .inr hcollision

end Accepted

/-- For `2^k` leaves, `k` at least one, the native root, the two circuits and the tree after the
insertions have one root. For `k = 9` and a validated root, `verifyBatchLeaf` accepts at position
`i` the words that stand for leaf `i` and for the path the tree returns, and other words only
along a path that collides with the tree. -/
theorem batch_roots_agree (env : Env) {k : ℕ} (hk : 1 ≤ k) {leaves : List HashOut}
    (hlen : leaves.length = 2 ^ k) :
    ∃ t r, MerkleTree.insertAll (hashOutput poseidon) k leaves = .ok t ∧
      t.root (hashOutput poseidon) = .ok r ∧
      SubtreeRootCircuit.computeRootNative poseidon leaves = some r ∧
      SubtreeRootCircuit.build poseidon leaves = some r ∧
      batchMerkleRootCircuit poseidon leaves [] [] = some r ∧
      (k = BATCH_SUBTREE_DEPTH → ∀ s : ContractState, s.imt.validatedBatchRoots (packLE r) = true →
        ∀ i < 2 ^ k, ∃ path, t.merklePath i 0 k = .ok path ∧ ∀ leaf siblings,
          (unpackLE leaf = leaves.getD i 0 ∧ siblings.map unpackLE = path →
            verifyBatchLeaf (deployedEnv env) s (packLE r) leaf (BitVec.ofNat 256 i) siblings =
              true) ∧
          (verifyBatchLeaf (deployedEnv env) s (packLE r) leaf (BitVec.ofNat 256 i) siblings =
              true →
            (unpackLE leaf = leaves.getD i 0 ∧ siblings.map unpackLE = path) ∨
              ∃ l < k, PathCollision (hashOutput poseidon).node (fun j => leaves.getD j 0)
                (fun l => unpackLE (siblings.getD l 0)) (unpackLE leaf) i l)) := by
  obtain ⟨t, ht, hrep⟩ := insertAll_represents (hashOutput_lawful poseidon) hk hlen.le
  refine ⟨t, _, ht, root_represents hrep hk hlen.le, computeRootNative_leaves hlen,
    build_leaves hlen, batchMerkleRootCircuit_leaves hlen rfl, ?_⟩
  rintro rfl s hvalid i hi
  refine ⟨batchPath leaves i, merklePath_represents hrep hk i, fun leaf siblings => ⟨?_, ?_⟩⟩
  · rintro ⟨hleaf, hpath⟩
    exact verifyBatchLeaf_path hvalid hi hleaf hpath
  · exact verifyBatchLeaf_binds hvalid hi

/-! ## A batch of zero leaves -/

def zeroLeaves : List HashOut := List.replicate (2 ^ BATCH_SUBTREE_DEPTH) 0

def zeroEnv : Env where
  keccak256 := fun _ => 0
  compress := compress
  verifyProof := fun _ _ _ => true

/-- The state with one more validated root. -/
def withRoot (s : ContractState) (root : U256) : ContractState :=
  { s with imt :=
      { s.imt with validatedBatchRoots := Function.update s.imt.validatedBatchRoots root true } }

theorem withRoot_validated (s : ContractState) (root : U256) :
    (withRoot s root).imt.validatedBatchRoots root = true := Function.update_self _ _ _

/-- A new contract that has validated the batch of zero leaves. -/
def zeroState : ContractState :=
  withRoot ((constructor zeroEnv 1 1 1 1 1 1 0).toOption.get rfl) (packLE (batchTreeRoot zeroLeaves))

theorem zeroState_validated :
    zeroState.imt.validatedBatchRoots (packLE (batchTreeRoot zeroLeaves)) = true :=
  withRoot_validated _ _

theorem zeroLeaves_length : zeroLeaves.length = 2 ^ BATCH_SUBTREE_DEPTH := List.length_replicate

theorem map_unpackLE_packLE (path : List HashOut) : (path.map packLE).map unpackLE = path := by
  rw [List.map_map]
  exact List.map_id'' unpackLE_packLE path

/-- The first leaf of the batch and its path, packed, are accepted. -/
theorem zero_batch_agrees : ∃ t r path,
    MerkleTree.insertAll (hashOutput poseidon) BATCH_SUBTREE_DEPTH zeroLeaves = .ok t ∧
      t.root (hashOutput poseidon) = .ok r ∧
      SubtreeRootCircuit.computeRootNative poseidon zeroLeaves = some r ∧
      t.merklePath 0 0 BATCH_SUBTREE_DEPTH = .ok path ∧
      verifyBatchLeaf (deployedEnv zeroEnv) zeroState (packLE r) (packLE 0) 0 (path.map packLE) =
        true := by
  obtain ⟨t, r, ht, hroot, hnative, -, -, hverify⟩ :=
    batch_roots_agree zeroEnv (k := BATCH_SUBTREE_DEPTH) (by decide) zeroLeaves_length
  have hr : r = batchTreeRoot zeroLeaves := by
    rw [computeRootNative_leaves zeroLeaves_length, Option.some.injEq] at hnative
    exact hnative.symm
  obtain ⟨path, hpath, haccept⟩ := hverify rfl zeroState (hr ▸ zeroState_validated) 0 (by decide)
  refine ⟨t, r, path, ht, hroot, hnative, hpath, (haccept (packLE 0) (path.map packLE)).1 ⟨?_, ?_⟩⟩
  · rw [unpackLE_packLE, zeroLeaves]
    rfl
  · exact map_unpackLE_packLE path

/-- A tree of depth zero takes its one leaf and has no root. In the batch of zero leaves the word
`ORDER` is accepted as the first leaf, which is packed as `0`. -/
theorem zero_batch_differs :
    ((MerkleTree.insertAll (hashOutput poseidon) 0 [0] >>= fun t => t.root (hashOutput poseidon)) =
        .error .panic ∧
      SubtreeRootCircuit.computeRootNative poseidon [0] = some 0) ∧
    BitVec.ofNat 256 ORDER ≠ packLE (zeroLeaves.getD 0 0) ∧
      verifyBatchLeaf (deployedEnv zeroEnv) zeroState (packLE (batchTreeRoot zeroLeaves))
        (BitVec.ofNat 256 ORDER) 0 ((batchPath zeroLeaves 0).map packLE) = true := by
  refine ⟨⟨rfl, computeRootNative_leaves (k := 0) rfl⟩, by decide, ?_⟩
  refine verifyBatchLeaf_path (i := 0) zeroState_validated (by decide) ?_ (map_unpackLE_packLE _)
  decide

end Doxa.Contract
