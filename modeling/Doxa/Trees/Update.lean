import Doxa.Trees.Tree

/-!
# Overwriting a leaf

`update_leaf` replaces an inserted leaf and recomputes the nodes above it. The tree then
represents the list with that entry replaced (`updateLeaf_represents`).
-/

namespace Doxa.Trees

open Lib

/-- The errors of `update_leaf`; `indexError` carries the index and the number of leaves. -/
inductive UpdateError
  | indexError (index len : ℕ)
  | panic
  deriving DecidableEq, Repr

variable {D : Type*} (H : MerkleHash D)

def MerkleTree.updateLeaf (self : MerkleTree D) (i : ℕ) (newLeaf : D) :
    Except UpdateError (MerkleTree D) :=
  if i ≥ self.leaves.length then .error (.indexError i self.leaves.length)
  else
    match { self with leaves := self.leaves.set i newLeaf }.updateMerklePath H i with
    | .ok self => .ok self
    | .error _ => .error .panic

/-! ## The whole path -/

variable {H}

theorem leafOf_set_of_ne {ds : List D} {i j : ℕ} {x : D} (h : j ≠ i) :
    H.leafOf (ds.set i x) j = H.leafOf ds j := by
  unfold MerkleHash.leafOf
  rw [List.getD_eq_getElem?_getD, List.getElem?_set_ne (Ne.symm h), List.getD_eq_getElem?_getD]

theorem rewrites_set {ds : List D} {i : ℕ} (hi : i < ds.length) (x : D) :
    Rewrites H (H.leafOf ds) (H.leafOf (ds.set i x)) ds.length ds.length i := by
  refine ⟨hi, fun j hj => leafOf_fresh (by rw [List.length_set]; exact hj), fun j hj => ?_,
    fun l _ => (div_lt_width hi l).le, fun l _ => ?_⟩
  · exact leafOf_set_of_ne fun h => hj (by rw [h])
  · have hlt := div_lt_width hi l
    omega

/-- Overwriting an inserted leaf succeeds and replaces the entry. -/
theorem updateLeaf_represents (hH : H.Lawful) {t : MerkleTree D} {depth : ℕ} {ds : List D}
    (ht : Represents H depth ds t) {i : ℕ} (hi : i < ds.length) (x : D) :
    ∃ t', t.updateLeaf H i x = .ok t' ∧ Represents H depth (ds.set i x) t' := by
  obtain ⟨layers, hupdate, hlayers⟩ := updateMerklePath_layered
    (t := { t with leaves := ds.set i x }) hH (rewrites_set hi x)
    (by rw [List.length_set]; exact hi) (fun _ _ => rfl) ht.defaults ht.layered
  refine ⟨{ t with leaves := ds.set i x, layers := layers }, ?_, rfl, hlayers.depth_eq, ?_,
    ht.defaults⟩
  · unfold MerkleTree.updateLeaf
    rw [ht.leaves, if_neg (by omega), hupdate]
  · rw [List.length_set]
    exact hlayers.layers

end Doxa.Trees
