import Doxa.StateSync.Inclusion
import Doxa.Trees.Runs

/-!
# A Merkle proof as a witness of the circuit

`set_witness` fills the targets of a path with the siblings and the bits of a proof. Native
verification, the proof of a stored tree and the gadget all climb from a leaf to the root, so
the proof of any position of a reachable tree verifies, binds the leaf, and satisfies
`compute_merkle_root_gadget` with the same root.
-/

namespace Doxa.StateSync

open Lib Trees Contract Circuit

/-- `set_witness`: the numbers of siblings are asserted to be equal. -/
def setWitness (depth : ℕ) (proof : MerkleProof HashOut) : Option (MerkleRootTarget depth) :=
  if proof.siblings.length = depth then some (pathTarget depth proof.siblings proof.path) else none

variable {perm : State → State} {depth i : ℕ} {ds : List HashOut}

/-- Verification of a path to position `i` climbs to the root. -/
theorem verify_eq_climb {q : MerkleProof HashOut}
    (hpath : q.path = (List.range depth).map i.testBit) (hlen : q.siblings.length = depth) :
    q.verify (hashOutput perm) = true ↔
      climb (hashOutput perm).node (fun k => q.siblings.getD k 0) i.testBit q.leaf depth =
        q.root := by
  have hsiblings : q.siblings = (List.range depth).map fun k => q.siblings.getD k 0 := by
    refine List.ext_getElem (by simp [hlen]) fun k hk _ => ?_
    rw [List.getElem_map, List.getElem_range, List.getD_eq_getElem _ _ hk]
  unfold MerkleProof.verify
  rw [decide_eq_true_iff, hpath]
  conv_lhs => rw [hsiblings, foldl_climb (hashOutput_lawful perm)]

/-- A proof that verifies at position `i` has the leaf and the siblings of the tree, unless it
collides with the tree on some level. -/
theorem verify_binds {q : MerkleProof HashOut} (hi : i < 2 ^ depth)
    (hpath : q.path = (List.range depth).map i.testBit) (hlen : q.siblings.length = depth)
    (hroot : q.root = Lib.node (hashOutput perm).node ((hashOutput perm).leafOf ds) depth 0)
    (hverify : q.verify (hashOutput perm) = true) :
    (q.leaf = (hashOutput perm).leafOf ds i ∧
        q.siblings = (proofOf (hashOutput perm) depth ds i).siblings) ∨
      ∃ l < depth, PathCollision (hashOutput perm).node ((hashOutput perm).leafOf ds)
        (fun k => q.siblings.getD k 0) q.leaf i l := by
  have hclimb := (verify_eq_climb hpath hlen).mp hverify
  rw [hroot, ← Nat.div_eq_of_lt hi] at hclimb
  rcases isPath_of_climb hclimb with ⟨hleaf, hsib⟩ | hcollision
  · refine .inl ⟨hleaf, List.ext_getElem (by simp [proofOf, hlen]) fun k hk _ => ?_⟩
    have hk' : q.siblings.getD k 0 = _ := hsib k (by omega)
    rw [List.getD_eq_getElem _ _ hk] at hk'
    simp [proofOf, hk']
  · exact .inr hcollision

/-- The extracted targets spell the position. -/
theorem pathTarget_position (hi : i < 2 ^ depth) (siblings : List HashOut) :
    (pathTarget depth siblings ((List.range depth).map i.testBit)).position = i := by
  apply Nat.eq_of_testBit_eq
  intro k
  unfold MerkleRootTarget.position
  rcases Nat.lt_or_ge k depth with hk | hk
  · rw [Nat.testBit_ofBits_lt _ k hk]
    refine (pathTarget_bit siblings _ ⟨k, hk⟩).trans ?_
    simp [hk]
  · rw [Nat.testBit_ofBits_ge _ k hk]
    exact (Nat.testBit_lt_two_pow (hi.trans_le (Nat.pow_le_pow_right (by decide) hk))).symm

/-- The gadget computes the root that verification compares. -/
theorem pathTarget_root (hi : i < 2 ^ depth) (siblings : List HashOut) (x : HashOut) :
    (pathTarget depth siblings ((List.range depth).map i.testBit)).root perm x =
      climb (hashOutput perm).node (fun k => siblings.getD k 0) i.testBit x depth := by
  rw [MerkleRootTarget.root_eq_climb (pathTarget_satisfied _ _), pathTarget_position hi,
    ← node_eq_nodeHash]
  refine climb_congr (fun k hk => ?_) fun _ _ => rfl
  exact dif_pos hk

/-- The targets of the proof of a stored tree. -/
theorem setWitness_proofOf (ds : List HashOut) (i : ℕ) :
    setWitness depth (proofOf (hashOutput perm) depth ds i) =
      some (pathTarget depth (proofOf (hashOutput perm) depth ds i).siblings
        (proofOf (hashOutput perm) depth ds i).path) :=
  if_pos (by simp [proofOf])

/-- Along the proof of position `i` the gadget computes the root of the tree with any leaf there. -/
theorem pathTarget_proofOf_root (hi : i < 2 ^ depth) (ds : List HashOut) (x : HashOut) :
    (pathTarget depth (proofOf (hashOutput perm) depth ds i).siblings
        (proofOf (hashOutput perm) depth ds i).path).root perm x =
      Lib.node (hashOutput perm).node
        (Function.update ((hashOutput perm).leafOf ds) i x) depth 0 := by
  have hsib : ∀ l < depth, (proofOf (hashOutput perm) depth ds i).siblings.getD l 0 =
      siblingOf (hashOutput perm).node ((hashOutput perm).leafOf ds) i l := by
    intro l hl
    simp [proofOf, hl]
  refine (pathTarget_root hi _ x).trans ?_
  rw [climb_siblings hsib, Nat.div_eq_of_lt hi]

/-- For every tree that calls on a new tree reach and every position, occupied or not: the proof
has the stored leaf or zero, its root is the one of the tree, and it verifies. A proof along the
same bits to the same root has the same leaf and siblings, unless it gives two pairs with the
same hash. The witness set from the proof satisfies the gadget, at this position and with this
root, and for any other leaf the gadget agrees with verification. -/
theorem merkle_proof_complete (perm : State → State) {ops : List (TreeOp HashOut)}
    {t₀ t : MerkleTree HashOut} (hdepth : 1 ≤ depth)
    (hnew : MerkleTree.new (hashOutput perm) depth = .ok t₀)
    (hrun : runTree (hashOutput perm) ops t₀ = some t) (hi : i < 2 ^ depth) :
    ∃ p w, t.merkleProof (hashOutput perm) i = .ok p ∧
      p.leaf = t.leaves.getD i 0 ∧ t.root (hashOutput perm) = .ok p.root ∧
      p.verify (hashOutput perm) = true ∧
      (∀ q : MerkleProof HashOut, q.path = p.path → q.siblings.length = p.siblings.length →
        q.root = p.root → q.verify (hashOutput perm) = true →
        (q.leaf = p.leaf ∧ q.siblings = p.siblings) ∨
          ∃ l < depth, PathCollision (hashOutput perm).node (fun j => t.leaves.getD j 0)
            (fun k => q.siblings.getD k 0) q.leaf i l) ∧
      setWitness depth p = some w ∧ w.Satisfied ∧ w.position = i ∧
      w.root perm p.leaf = p.root ∧
      ∀ x, w.root perm x = p.root ↔
        ({ p with leaf := x } : MerkleProof HashOut).verify (hashOutput perm) = true := by
  have hH := hashOutput_lawful perm
  obtain ⟨t₁, hok, hempty⟩ := new_represents (hashOutput perm) hdepth
  rw [hnew] at hok
  cases hok
  obtain ⟨ht, hlen⟩ := run_represents hH hdepth hempty (Nat.zero_le _) hrun
  generalize ops.foldl TreeOp.leaves [] = ds at ht hlen
  have hsiblings : (proofOf (hashOutput perm) depth ds i).siblings.length = depth := by
    simp [proofOf]
  have hagree : ∀ x, (pathTarget depth (proofOf (hashOutput perm) depth ds i).siblings
        ((List.range depth).map i.testBit)).root perm x =
        (proofOf (hashOutput perm) depth ds i).root ↔
      ({ proofOf (hashOutput perm) depth ds i with leaf := x } :
        MerkleProof HashOut).verify (hashOutput perm) = true := by
    intro x
    rw [pathTarget_root hi]
    exact (verify_eq_climb (q := { proofOf (hashOutput perm) depth ds i with leaf := x }) rfl
      hsiblings).symm
  refine ⟨proofOf (hashOutput perm) depth ds i, pathTarget depth _ _,
    merkleProof_represents ht hdepth hlen i, ?_, root_represents ht hdepth hlen,
    proofOf_verify hH hi, fun q hpath hq hroot hverify => ?_, if_pos hsiblings,
    pathTarget_satisfied _ _, pathTarget_position hi _, ?_, hagree⟩
  · rw [ht.leaves]
    rfl
  · rw [ht.leaves]
    exact verify_binds hi hpath (hq.trans hsiblings) hroot hverify
  · exact (hagree _).mpr (proofOf_verify hH hi)

/-- Three leaves in a tree of depth two: the occupied position `1` and the free position `3`. -/
theorem merkle_proof_complete_sample : ∃ t₀ t : MerkleTree HashOut,
    MerkleTree.new (hashOutput id) 2 = .ok t₀ ∧
      runTree (hashOutput id) [.insert ![1, 0, 0, 0], .insert ![2, 0, 0, 0],
        .insert ![3, 0, 0, 0]] t₀ = some t ∧
      (∃ p w, t.merkleProof (hashOutput id) 1 = .ok p ∧ p.verify (hashOutput id) = true ∧
        p.leaf = t.leaves.getD 1 0 ∧ setWitness 2 p = some w ∧ w.root id p.leaf = p.root) ∧
      ∃ p w, t.merkleProof (hashOutput id) 3 = .ok p ∧ p.verify (hashOutput id) = true ∧
        p.leaf = t.leaves.getD 3 0 ∧ setWitness 2 p = some w ∧ w.root id p.leaf = p.root := by
  obtain ⟨t₀, hnew, h₀⟩ := new_represents (hashOutput id) (by decide : 0 < 2)
  obtain ⟨t, hrun, -⟩ := run_insert (hashOutput_lawful id) h₀
    [![1, 0, 0, 0], ![2, 0, 0, 0], ![3, 0, 0, 0]] (by decide)
  refine ⟨t₀, t, hnew, hrun, ?_, ?_⟩
  · obtain ⟨p, w, hp, hleaf, -, hverify, -, hw, -, -, hroot, -⟩ :=
      merkle_proof_complete id (i := 1) (by decide) hnew hrun (by decide)
    exact ⟨p, w, hp, hverify, hleaf, hw, hroot⟩
  · obtain ⟨p, w, hp, hleaf, -, hverify, -, hw, -, -, hroot, -⟩ :=
      merkle_proof_complete id (i := 3) (by decide) hnew hrun (by decide)
    exact ⟨p, w, hp, hverify, hleaf, hw, hroot⟩

end Doxa.StateSync
