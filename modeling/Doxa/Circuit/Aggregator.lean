import Doxa.Lib.CompleteTree
import Doxa.Circuit.BridgeTx
import Mathlib.Data.Nat.Bitwise

/-!
# Batches

The subtree circuit proves the root of the `SUBTREE_BATCHSIZE` leaves of a batch, and the
two super circuits connect these leaves with the output commitments of the transactions
they aggregate. An inner proof is read as a satisfying assignment of the inner circuit.
The leaves are connected whatever `notFakeTx` says.
-/

namespace Doxa.Circuit

open Lib

variable (perm : State → State)

abbrev PRIV_TX_BATCH_SIZE : ℕ := 64
abbrev BRIDGE_TX_BATCH_SIZE : ℕ := 512
abbrev SUBTREE_BATCHSIZE : ℕ := 512
abbrev HALF : ℕ := BRIDGE_TX_BATCH_SIZE / 2

instance : NeZero HALF := ⟨by decide⟩

/-! ## The subtree -/

/-- The node hash of the subtree: the direction bit is fixed. -/
def nodeHash (left right : HashOut) : HashOut := hash2to1SwappedCircuit perm left right 0

/-- The circuit hashes a node as the native code does. -/
theorem nodeHash_eq (left right : HashOut) : nodeHash perm left right = hash2to1 perm left right := by
  have hstate : swappedState left right 0 = overwrite (List.ofFn left ++ List.ofFn right) 0 := by
    funext i
    fin_cases i <;> simp [swappedState, overwrite]
  rw [nodeHash, hash2to1SwappedCircuit, hstate]
  rfl

/-- One round of the loop: the nodes of the next level. -/
def parents (nodes : List HashOut) : List HashOut :=
  (List.range (nodes.length / 2)).map fun i =>
    nodeHash perm (nodes.getD (2 * i) 0) (nodes.getD (2 * i + 1) 0)

theorem parents_length (nodes : List HashOut) : (parents perm nodes).length = nodes.length / 2 := by
  rw [parents, List.length_map, List.length_range]

/-- `while nodes.len() > 1`. -/
def merkleRoot (nodes : List HashOut) : HashOut :=
  if 1 < nodes.length then merkleRoot (parents perm nodes) else nodes.getD 0 0
termination_by nodes.length
decreasing_by
  rw [parents_length]
  omega

/-- The targets of a `SubtreeRootCircuit`. -/
structure SubtreeRootTargets where
  root : HashOut
  leaves : Fin SUBTREE_BATCHSIZE → HashOut

namespace SubtreeRootTargets

variable (t : SubtreeRootTargets)

def Satisfied : Prop := merkleRoot perm (List.ofFn t.leaves) = t.root

/-- The leaves as a function on all positions. -/
def leaf (i : ℕ) : HashOut := (List.ofFn t.leaves).getD i 0

theorem leaf_val (i : Fin SUBTREE_BATCHSIZE) : t.leaf i = t.leaves i := by
  rw [leaf, List.getD_eq_getElem?_getD, List.getElem?_ofFn, dif_pos i.isLt, Option.getD_some]

end SubtreeRootTargets

variable {perm}

theorem parents_getD {nodes : List HashOut} {i : ℕ} (hi : i < nodes.length / 2) :
    (parents perm nodes).getD i 0 =
      nodeHash perm (nodes.getD (2 * i) 0) (nodes.getD (2 * i + 1) 0) := by
  rw [parents, List.getD_eq_getElem _ _ (by simpa using hi), List.getElem_map, List.getElem_range]

/-- The loop computes the root of the complete tree. -/
theorem merkleRoot_eq_node (depth : ℕ) (nodes : List HashOut) (leaf : ℕ → HashOut)
    (hlength : nodes.length = 2 ^ depth) (l : ℕ)
    (hnodes : ∀ i < 2 ^ depth, nodes.getD i 0 = node (nodeHash perm) leaf l i) :
    merkleRoot perm nodes = node (nodeHash perm) leaf (l + depth) 0 := by
  induction depth generalizing nodes l with
  | zero =>
    rw [merkleRoot, if_neg (by rw [hlength, pow_zero]; exact lt_irrefl 1)]
    exact hnodes 0 (by decide)
  | succ depth ih =>
    have hhalf : nodes.length / 2 = 2 ^ depth := by rw [hlength, pow_succ]; omega
    have hpos : 0 < 2 ^ depth := Nat.two_pow_pos depth
    rw [merkleRoot, if_pos (by omega), show l + (depth + 1) = l + 1 + depth by omega]
    refine ih (parents perm nodes) ?_ (l + 1) ?_
    · rw [parents_length, hhalf]
    · intro i hi
      rw [parents_getD (by omega), node_succ]
      rw [hnodes (2 * i) (by rw [pow_succ]; omega), hnodes (2 * i + 1) (by rw [pow_succ]; omega)]

/-- The depth of the subtree. -/
def SUBTREE_DEPTH : ℕ := 9

theorem SubtreeRootTargets.Satisfied.root_eq {t : SubtreeRootTargets} (h : t.Satisfied perm) :
    t.root = node (nodeHash perm) t.leaf SUBTREE_DEPTH 0 := by
  have hroot : merkleRoot perm (List.ofFn t.leaves) =
      node (nodeHash perm) t.leaf (0 + SUBTREE_DEPTH) 0 :=
    merkleRoot_eq_node SUBTREE_DEPTH _ t.leaf (by rw [List.length_ofFn]; rfl) 0 fun _ _ => rfl
  rw [← h, hroot, Nat.zero_add]

/-! ## Paths as climbs -/

namespace MerkleRootTarget

variable {depth : ℕ} (t : MerkleRootTarget depth)

/-- The position the bits of the path spell. -/
def position : ℕ := Nat.ofBits fun k => decide (t.bits k = 1)

/-- The sibling on level `k`. -/
def sibling (k : ℕ) : HashOut := if h : k < depth then t.siblings ⟨k, h⟩ else 0

variable {t}

theorem bit_eq (ht : t.Satisfied) (k : Fin depth) :
    t.bits k = if t.position.testBit k then 1 else 0 := by
  have hbit : t.position.testBit k = decide (t.bits k = 1) := Nat.testBit_ofBits_lt _ k.val k.isLt
  rw [hbit]
  rcases isBool_iff.mp (ht k) with h | h
  · rw [h]
    rfl
  · rw [h]
    rfl

theorem root_eq_climb (ht : t.Satisfied) (leaf : HashOut) :
    t.root perm leaf = climb (nodeHash perm) t.sibling t.position.testBit leaf depth := by
  -- the fold over the first `k` levels
  have hfold : ∀ (k : ℕ) (hk : k ≤ depth),
      Fin.foldl k (fun cur i => hash2to1SwappedCircuit perm cur (t.siblings (i.castLE hk))
        (t.bits (i.castLE hk))) leaf =
      climb (nodeHash perm) t.sibling t.position.testBit leaf k := by
    intro k
    induction k with
    | zero => intro hk; rfl
    | succ k ih =>
      intro hk
      rw [Fin.foldl_succ_last, climb]
      have hprev := ih (Nat.le_of_succ_le hk)
      simp only [Fin.castLE_castSucc] at hprev ⊢
      rw [hprev, bit_eq ht]
      have hsib : t.sibling k = t.siblings ⟨k, hk⟩ := dif_pos hk
      rw [hsib]
      change hash2to1SwappedCircuit perm _ _ (if t.position.testBit k then 1 else 0) = _
      split
      · exact swapped_comm perm _ _
      · rfl
  exact hfold depth le_rfl

end MerkleRootTarget

/-! ## The super circuit of private transactions -/

/-- The note of output `j`. -/
def noteIndex (j : Fin (1 + NOTE_BATCH)) (h : 0 < j.val) : Fin NOTE_BATCH := ⟨j.val - 1, by omega⟩

/-- The leaves of one slot: the account commitment, then the note commitments. -/
def TxCircuitPublicTargets.outputCommitments (t : TxCircuitPublicTargets)
    (j : Fin (1 + NOTE_BATCH)) : HashOut :=
  if h : 0 < j.val then t.onotesComm (noteIndex j h) else t.accoutComm

structure PrivTxSuperTargets where
  slots : Fin PRIV_TX_BATCH_SIZE → TxCircuitTargets
  sr : SubtreeRootTargets

namespace PrivTxSuperTargets

/-- The position of output `j` of slot `s`. -/
def leafIndex (s : Fin PRIV_TX_BATCH_SIZE) (j : Fin (1 + NOTE_BATCH)) : Fin SUBTREE_BATCHSIZE :=
  ⟨s.val * (1 + NOTE_BATCH) + j.val, by
    have hs : s.val < 64 := s.isLt
    have hj : j.val < 8 := j.isLt
    change s.val * 8 + j.val < 512
    omega⟩

variable (perm) (t : PrivTxSuperTargets)

/-- The public inputs of slot `s`. -/
def pis (s : Fin PRIV_TX_BATCH_SIZE) : TxCircuitPublicTargets := (t.slots s).publicTargets perm

/-- The constraints of the super circuit. -/
structure Satisfied : Prop where
  tx : ∀ s, (t.slots s).Satisfied perm
  sr : t.sr.Satisfied perm
  leaves : ∀ s j, (t.pis perm s).outputCommitments j = t.sr.leaves (leafIndex s j)
  state_root : ∀ s, (t.pis perm s).stateRoot = (t.pis perm 0).stateRoot
  mainpool_config_root : ∀ s,
    (t.pis perm s).mainpoolConfigRoot = (t.pis perm 0).mainpoolConfigRoot

end PrivTxSuperTargets

/-! ## The super circuit of bridge transactions -/

/-- A withdrawal and a deposit, as `build_pair_leaf` verifies them. -/
structure BridgeTxPairTargets where
  w : WithdrawTxTargets
  d : DepositTxTargets

/-- The constraints of `build_pair_leaf`. -/
structure BridgeTxPairTargets.Satisfied (perm : State → State) (t : BridgeTxPairTargets) :
    Prop where
  withdraw : t.w.Satisfied perm
  deposit : t.d.Satisfied perm
  root : (t.w.publicTargets perm).root = (t.d.publicTargets perm).stateRoot
  mainpool_config_root : (t.w.publicTargets perm).mainpoolConfigRoot =
    (t.d.publicTargets perm).mainpoolConfigRoot

structure BridgeTxSuperTargets where
  pairs : Fin HALF → BridgeTxPairTargets
  sr : SubtreeRootTargets

namespace BridgeTxSuperTargets

/-- The leaf of the withdrawal of pair `s`. -/
def withdrawIndex (s : Fin HALF) : Fin SUBTREE_BATCHSIZE :=
  ⟨s.val, s.isLt.trans (by decide)⟩

/-- The leaf of the deposit of pair `s`. -/
def depositIndex (s : Fin HALF) : Fin SUBTREE_BATCHSIZE :=
  ⟨HALF + s.val, Nat.add_lt_add_left s.isLt HALF⟩

variable (perm) (t : BridgeTxSuperTargets)

/-- The constraints of the super circuit. -/
structure Satisfied : Prop where
  pair : ∀ s, (t.pairs s).Satisfied perm
  sr : t.sr.Satisfied perm
  w_leaves : ∀ s, ((t.pairs s).w.publicTargets perm).accoutComm = t.sr.leaves (withdrawIndex s)
  d_leaves : ∀ s, ((t.pairs s).d.publicTargets perm).accoutComm = t.sr.leaves (depositIndex s)
  act_root : ∀ s, ((t.pairs s).w.publicTargets perm).root = ((t.pairs 0).w.publicTargets perm).root
  mainpool_config_root : ∀ s, ((t.pairs s).w.publicTargets perm).mainpoolConfigRoot =
    ((t.pairs 0).w.publicTargets perm).mainpoolConfigRoot

end BridgeTxSuperTargets

end Doxa.Circuit
