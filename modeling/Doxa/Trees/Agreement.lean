import Doxa.Contract.Imt
import Doxa.Hash.Poseidon
import Doxa.Trees.Tree

/-!
# The on-chain tree and the state tree have the same root

The contract appends packed digests with `compress`, the server inserts the digests into
a `MerkleTree` hashed by Poseidon. Both represent the complete tree of their depth over
the same leaves, so their roots agree along any packing of digests into words that turns
the node hash into `compress` and the zero digest into the zero word.
-/

namespace Doxa.Trees

open Lib Contract

variable (perm : State → State)

/-- The node hash of all trees of the system. -/
def hashOutput : MerkleHash HashOut where
  ZERO := 0
  hash2to1Swapped := hash2to1Swapped perm

theorem hashOutput_lawful : (hashOutput perm).Lawful := ⟨fun _ _ => rfl⟩

variable {perm} {compress : U256 → U256 → U256} {pack : HashOut → U256}

/-- A packing carries the root of the digests to the root of the words. -/
theorem pack_node (hzero : pack 0 = 0)
    (hpack : ∀ l r, compress (pack l) (pack r) = pack (hash2to1 perm l r)) (depth : ℕ)
    (ds : List HashOut) :
    pack (Lib.node (hashOutput perm).node ((hashOutput perm).leafOf ds) depth 0) =
      fullRoot compress depth (ds.map pack) := by
  rw [map_node (h := (hashOutput perm).node) pack (k := compress) fun a b => (hpack a b).symm]
  refine node_congr fun j _ _ => ?_
  have hget := List.getD_map (n := j) ds (0 : HashOut) pack
  rw [hzero] at hget
  exact hget.symm

/-- The incremental tree of the contract is the complete tree: after any sequence of at
most `2 ^ depth` appends it holds the root of the full tree, every root it ever had is
confirmed, the leaves are recorded in order, a full tree refuses a further append, and
along a packing the root is the one of the state tree over the same leaves. -/
theorem imt_is_complete_tree (compress : U256 → U256 → U256) (depth : ℕ) (hdepth : 1 ≤ depth)
    (xs : List U256) (hlen : xs.length ≤ 2 ^ depth) :
    (appendRun compress depth xs).currentRoot = fullRoot compress depth xs ∧
      (∀ ys, ys <+: xs → (appendRun compress depth xs).confirmedRoots
        (appendRun compress depth ys).currentRoot = true) ∧
      (appendRun compress depth xs).leafCount = xs.length ∧
      (∀ i, (appendRun compress depth xs).leaves i = xs.getD i 0) ∧
      (xs.length = 2 ^ depth → ∀ x,
        (appendRun compress depth xs).appendLeaf compress depth x = .error .treeFull ∧
          appendRun compress depth (xs ++ [x]) = appendRun compress depth xs) ∧
      (∀ (perm : State → State) (pack : HashOut → U256), pack 0 = 0 →
        (∀ l r, compress (pack l) (pack r) = pack (hash2to1 perm l r)) →
        ∀ ds : List HashOut, xs = ds.map pack →
        ∃ t r, MerkleTree.insertAll (hashOutput perm) depth ds = .ok t ∧
          t.root (hashOutput perm) = .ok r ∧
          (appendRun compress depth xs).currentRoot = pack r) := by
  obtain ⟨hC, hcount⟩ := appendRun_counter compress hlen
  refine ⟨hC.root, ?_, hcount, hC.recorded, ?_, ?_⟩
  · rintro ys ⟨zs, rfl⟩
    exact appendRun_confirmed zs
  · intro hfull x
    have herr : (appendRun compress depth xs).appendLeaf compress depth x = .error .treeFull :=
      appendLeaf_full (by omega)
    refine ⟨herr, ?_⟩
    unfold appendRun at herr ⊢
    rw [run_concat]
    exact attempt_error herr
  · rintro perm pack hzero hpack ds rfl
    rw [List.length_map] at hlen
    obtain ⟨t, ht, hrep⟩ := insertAll_represents (hashOutput_lawful perm) hdepth hlen
    refine ⟨t, _, ht, root_represents hrep hdepth hlen, ?_⟩
    rw [pack_node hzero hpack]
    exact hC.root

/-! ## The packing in use -/

/-- `el0 | (el1 << 64) | (el2 << 128) | (el3 << 192)`. -/
def packLE (h : HashOut) : U256 :=
  BitVec.ofNat 256 ((h 0).val + 2 ^ 64 * ((h 1).val + 2 ^ 64 * ((h 2).val + 2 ^ 64 * (h 3).val)))

def unpackLE (x : U256) : HashOut := fun i => ((x.toNat / 2 ^ (64 * i.val) % 2 ^ 64 : ℕ) : F)

theorem unpackLE_packLE (h : HashOut) : unpackLE (packLE h) = h := by
  have h0 := val_lt_word (h 0)
  have h1 := val_lt_word (h 1)
  have h2 := val_lt_word (h 2)
  have h3 := val_lt_word (h 3)
  have hnat : (packLE h).toNat =
      (h 0).val + 2 ^ 64 * ((h 1).val + 2 ^ 64 * ((h 2).val + 2 ^ 64 * (h 3).val)) := by
    rw [packLE, BitVec.toNat_ofNat, Nat.mod_eq_of_lt (by omega)]
  funext i
  rw [← ZMod.natCast_zmod_val (h i), unpackLE, hnat]
  refine congrArg Nat.cast ?_
  match i with
  | 0 => norm_num only [Fin.val_zero]; omega
  | 1 => norm_num only [Fin.val_one]; omega
  | 2 => norm_num only [Fin.val_two]; omega
  | 3 => norm_num only [show ((3 : Fin 4) : ℕ) = 3 from rfl]; omega

/-- `PoseidonGoldilocks.compress`, over the permutation. -/
def compressLE (perm : State → State) (left right : U256) : U256 :=
  packLE (hash2to1 perm (unpackLE left) (unpackLE right))

/-- Three leaves in a tree of depth two, hashed with the identity permutation. -/
theorem imt_three_leaves :
    (appendRun (compressLE id) 2 ([![1, 0, 0, 0], ![2, 0, 0, 0], ![3, 0, 0, 0]].map packLE)
      ).currentRoot = fullRoot (compressLE id) 2
        ([![1, 0, 0, 0], ![2, 0, 0, 0], ![3, 0, 0, 0]].map packLE) ∧
      ∃ t r, MerkleTree.insertAll (hashOutput id) 2
          [![1, 0, 0, 0], ![2, 0, 0, 0], ![3, 0, 0, 0]] = .ok t ∧
        t.root (hashOutput id) = .ok r ∧
        (appendRun (compressLE id) 2 ([![1, 0, 0, 0], ![2, 0, 0, 0], ![3, 0, 0, 0]].map packLE)
          ).currentRoot = packLE r := by
  have h := imt_is_complete_tree (compressLE id) 2 (by decide)
    ([![1, 0, 0, 0], ![2, 0, 0, 0], ![3, 0, 0, 0]].map packLE) (by simp)
  refine ⟨h.1, h.2.2.2.2.2 id packLE (by decide) ?_ _ rfl⟩
  intro l r
  rw [compressLE, unpackLE_packLE, unpackLE_packLE]

end Doxa.Trees
