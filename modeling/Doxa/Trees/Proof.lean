import Doxa.Trees.Tree

/-!
# Merkle proofs

`merkle_proof` reads the siblings of a position from the stored layers, level by level; a
missing one is the default of its level. For a represented tree these are the siblings of
the complete tree, so the proof of every position verifies.
-/

namespace Doxa.Trees

open Lib

structure MerkleProof (D : Type) where
  leaf : D
  siblings : List D
  path : List Bool
  pos : ℕ
  numLeaves : ℕ
  root : D

variable {D : Type} (H : MerkleHash D)

/-- `xs[i]`, or the default of the level. -/
def MerkleTree.orDefault (self : MerkleTree D) (xs : List D) (level i : ℕ) : Except TreeError D :=
  if i < xs.length then index xs i else index self.defaultSiblings level

/-- The sibling on `level` of the node at `pos`. -/
def MerkleTree.pathSibling (self : MerkleTree D) (level pos : ℕ) : Except TreeError D := do
  let isRight := pos &&& 1 == 1
  let siblingPos := if isRight then pos - 1 else pos + 1
  let prevLayer ← self.prevLayer self.layers level
  self.orDefault prevLayer level siblingPos

def MerkleTree.merklePath (self : MerkleTree D) (i startDepth endDepth : ℕ) :
    Except TreeError (List D) := do
  revertIf (¬ endDepth ≤ self.depth) TreeError.panic
  revertIf (¬ endDepth > startDepth) TreeError.panic
  (List.range (endDepth - startDepth)).mapM fun k =>
    self.pathSibling (startDepth + k) (i >>> startDepth >>> k)

def MerkleTree.merkleProof (self : MerkleTree D) (i : ℕ) : Except TreeError (MerkleProof D) := do
  let siblings ← self.merklePath i 0 self.depth
  let leaf := if i < self.numLeaves then self.leaves.getD i H.ZERO else H.ZERO
  let path := (List.range self.depth).map fun j => i >>> j &&& 1 == 1
  let root ← self.root H
  return ⟨leaf, siblings, path, i, self.numLeaves, root⟩

def MerkleProof.verify [DecidableEq D] (self : MerkleProof D) : Bool :=
  (self.path.zip self.siblings).foldl
    (fun current step => H.hash2to1Swapped current step.2 step.1) self.leaf = self.root

/-! ## Proofs of a represented tree -/

variable {H}

/-- The loop of `verify`. -/
theorem foldl_climb (hH : H.Lawful) (sib : ℕ → D) (bit : ℕ → Bool) (x : D) (n : ℕ) :
    (((List.range n).map bit).zip ((List.range n).map sib)).foldl
      (fun current step => H.hash2to1Swapped current step.2 step.1) x =
        climb H.node sib bit x n := by
  induction n with
  | zero => rfl
  | succ n ih =>
    rw [List.range_succ, List.map_append, List.map_append, List.zip_append (by simp),
      List.foldl_append, ih, climb]
    simp only [List.map_cons, List.map_nil, List.zip_cons_cons, List.zip_nil_right,
      List.foldl_cons, List.foldl_nil]
    cases bit n with
    | true => exact hH.swapped _ _
    | false => rfl

theorem mapM_eq_ok {α β : Type*} {f : α → Except TreeError β} {g : α → β} {xs : List α}
    (h : ∀ x ∈ xs, f x = .ok (g x)) : xs.mapM f = .ok (xs.map g) := by
  induction xs with
  | nil => rfl
  | cons x xs ih =>
    rw [List.mapM_cons, h x List.mem_cons_self, ih fun y hy => h y (List.mem_cons_of_mem x hy)]
    rfl

theorem testBit_shift (i j : ℕ) : (i >>> j &&& 1 == 1) = i.testBit j := by
  rw [Nat.and_one_is_mod, Nat.shiftRight_eq_div_pow, Nat.testBit_eq_decide_div_mod_eq]
  rfl

section Represented

variable {t : MerkleTree D} {depth : ℕ} {ds : List D}

theorem prevLayer_represents (ht : Represents H depth ds t) {k : ℕ} (hk : k < depth) :
    t.prevLayer t.layers k = .ok (layerOf H (H.leafOf ds) ds.length k) := by
  unfold MerkleTree.prevLayer
  split
  · rename_i hzero
    subst hzero
    rw [ht.leaves]
    exact congrArg Except.ok (layerOf_leaves H ds H.ZERO).symm
  · rename_i hpos
    have hlayer := ht.layers (k - 1) (by omega)
    rw [Nat.sub_add_cancel (Nat.pos_of_ne_zero hpos)] at hlayer
    exact index_eq_ok hlayer

/-- A node that is not stored has only default leaves. -/
theorem node_default {l i : ℕ} (hi : width ds.length l ≤ i) :
    Lib.node H.node (H.leafOf ds) l i = ladder H.node H.ZERO l :=
  node_eq_ladder fun _ hlo _ => leafOf_fresh ((le_mul_of_width_le hi).trans hlo)

/-- A node of a level, stored or not. -/
theorem orDefault_layerOf
    (hdefaults : t.defaultSiblings = (List.range depth).map (ladder H.node H.ZERO)) {k : ℕ}
    (hk : k < depth) (i : ℕ) :
    t.orDefault (layerOf H (H.leafOf ds) ds.length k) k i =
      .ok (Lib.node H.node (H.leafOf ds) k i) := by
  unfold MerkleTree.orDefault
  rw [layerOf_length]
  split
  · rename_i hi
    exact index_eq_ok (layerOf_getElem? H hi)
  · rename_i hi
    rw [node_default (Nat.le_of_not_lt hi), hdefaults]
    exact index_eq_ok (by rw [List.getElem?_map, List.getElem?_range hk]; rfl)

theorem pathSibling_represents (ht : Represents H depth ds t) {k : ℕ} (hk : k < depth) (i : ℕ) :
    t.pathSibling k (i >>> k) = .ok (siblingOf H.node (H.leafOf ds) i k) := by
  unfold MerkleTree.pathSibling
  rw [prevLayer_represents ht hk, testBit_shift, Nat.shiftRight_eq_div_pow]
  exact orDefault_layerOf ht.defaults hk _

/-- The proof of position `i`. -/
def proofOf (H : MerkleHash D) (depth : ℕ) (ds : List D) (i : ℕ) : MerkleProof D where
  leaf := H.leafOf ds i
  siblings := (List.range depth).map (siblingOf H.node (H.leafOf ds) i)
  path := (List.range depth).map i.testBit
  pos := i
  numLeaves := ds.length
  root := Lib.node H.node (H.leafOf ds) depth 0

theorem merklePath_represents (ht : Represents H depth ds t) (hdepth : 0 < depth) (i : ℕ) :
    t.merklePath i 0 depth = .ok (proofOf H depth ds i).siblings := by
  apply revertIf_bind_eq_ok.mpr
  refine ⟨not_not_intro ht.depth_eq.ge, revertIf_bind_eq_ok.mpr ⟨not_not_intro hdepth, ?_⟩⟩
  refine mapM_eq_ok fun k hk => ?_
  rw [Nat.zero_add]
  exact pathSibling_represents ht (List.mem_range.mp hk) i

theorem merkleProof_represents (ht : Represents H depth ds t) (hdepth : 0 < depth)
    (hlen : ds.length ≤ 2 ^ depth) (i : ℕ) : t.merkleProof H i = .ok (proofOf H depth ds i) := by
  have hpath : t.merklePath i 0 t.depth = .ok (proofOf H depth ds i).siblings := by
    rw [show t.depth = depth from ht.depth_eq]
    exact merklePath_represents ht hdepth i
  have hleaf : (if i < t.numLeaves then t.leaves.getD i H.ZERO else H.ZERO) = H.leafOf ds i := by
    rw [MerkleTree.numLeaves, ht.leaves]
    split
    · rfl
    · rename_i hi
      exact (leafOf_fresh (Nat.le_of_not_lt hi)).symm
  have hbits : (List.range t.depth).map (fun j => i >>> j &&& 1 == 1) =
      (List.range depth).map i.testBit := by
    rw [show t.depth = depth from ht.depth_eq]
    exact List.map_congr_left fun j _ => testBit_shift i j
  unfold MerkleTree.merkleProof
  rw [hpath, root_represents ht hdepth hlen, hleaf, hbits, MerkleTree.numLeaves, ht.leaves]
  rfl

/-- The proof of every position of the tree verifies. -/
theorem proofOf_verify [DecidableEq D] (hH : H.Lawful) {i : ℕ} (hi : i < 2 ^ depth) :
    (proofOf H depth ds i).verify H = true := by
  refine decide_eq_true ?_
  show _ = Lib.node H.node (H.leafOf ds) depth 0
  rw [proofOf, foldl_climb hH, climb_tree, Nat.div_eq_of_lt hi]

end Represented

end Doxa.Trees
