import Doxa.Client.Freshness
import Doxa.Client.SpendTargets
import Doxa.Client.Withdraw

/-!
# When the slots of a withdrawal satisfy the circuit

Each slot comes with the path of its asset in the tree the slots before it left, and the circuit
opens the leaf before and after the withdrawal along this path. The flag of the second opening is
cleared where nothing is left, so that the circuit opens the zero leaf, but the tree keeps a leaf
with amount zero. A padding slot takes the path of the next unused leaf; a full tree has none, and
the path at its number of leaves is that of the first leaf of an empty tree. In both cases the roots
differ unless the hash collides, and in no other (`withdrawal_provable_iff`).
-/

namespace Doxa.Circuit

open Client Client.Withdraw
open Client.Spend (boolTarget)

variable (perm : State → State)

/-- The targets of slot `i` after `prove`. -/
structure WithdrawTxTargets.HoldsSlot (t : WithdrawTxTargets) (i : Fin NOTE_BATCH)
    (slot : WithdrawalSlot) : Prop where
  asset_id : t.assetIds i = slot.assetId
  withdrawal_amt : t.withdrawalAmts i = U256Target.set slot.withdrawalAmt
  accin_amt : t.accinAmts i = U256Target.set slot.accinAmt
  accout_amt : t.accoutAmts i = U256Target.set slot.accoutAmt
  exists_in : t.assetExistsInAccin i = boolTarget slot.existsIn
  exists_out : t.assetExistsInAccout i = boolTarget slot.existsOut
  ast_merkle : StateSync.setWitness ACC_AST_DEPTH slot.proof = some (t.astMerkles i)

/-- The targets of both accounts and of all slots after `prove`. -/
structure WithdrawTxTargets.HoldsSlots (t : WithdrawTxTargets) (accin : StandardAccount)
    (slots : WithdrawalSlots) : Prop where
  accin : AccountTarget.setWitness perm accin = .ok t.accin
  accout : AccountTarget.setWitness perm slots.accout = .ok t.accout
  slot : ∀ i : Fin NOTE_BATCH, ∃ slot, slots.slots[i.val]? = some slot ∧ t.HoldsSlot i slot

/-- The constraints of `withdraw_tx_circuit` on its chain of updates and balances. -/
structure WithdrawTxTargets.ChainSatisfied (t : WithdrawTxTargets) : Prop where
  asset_exists_in_accin : ∀ i, IsBool (t.assetExistsInAccin i)
  asset_exists_in_accout : ∀ i, IsBool (t.assetExistsInAccout i)
  rhs : ∀ i, (t.rhs i).Satisfied (t.accoutAmts i) ![t.withdrawalAmts i]
  balance : ∀ i, t.accinAmts i = (t.rhs i).result
  ast : ∀ i, AssertAstUpdate perm (t.astMerkles i) (t.assetIds i) (t.accinAmts i) (t.accoutAmts i)
    (t.prevRoot i) (t.currRoot i) (t.assetExistsInAccin i) (t.assetExistsInAccout i)

variable {perm} in
/-- The chain is part of the circuit. -/
theorem WithdrawTxTargets.Satisfied.chain {t : WithdrawTxTargets} (h : t.Satisfied perm) :
    t.ChainSatisfied perm where
  asset_exists_in_accin := h.allocated.asset_exists_in_accin
  asset_exists_in_accout := h.allocated.asset_exists_in_accout
  rhs := h.rhs
  balance := h.balance
  ast := h.ast

end Doxa.Circuit

namespace Doxa.Client.Withdraw

open Lib Circuit Trees
open AccountStateTree (Mirrors)
open Spend (boolTarget)
open StateSync (pathTarget)
open Contract (U256)

variable (perm : State → State)

/-- The slots of the withdrawals satisfy the chain of the circuit, for some intermediate roots. -/
def Provable (accin : StandardAccount) (ws : List (F × U256)) : Prop :=
  ∃ slots, computeWithdrawalSlots perm accin ws = .ok slots ∧
    ∃ t : WithdrawTxTargets, t.HoldsSlots perm accin slots ∧ t.ChainSatisfied perm

/-! ## The trees between the slots -/

/-- The leaf index of an asset. -/
def leafIndexOf (ast : AccountStateTree) (assetId : F) : ℕ :=
  ((ast.amountFor assetId).map Prod.fst).getD 0

/-- What the first `k` withdrawals leave of an asset. -/
def leftAfter (ast : AccountStateTree) (ws : List (F × U256)) (k : ℕ) (assetId : F) : U256 :=
  ast.balance assetId - BitVec.ofNat 256 (requested (ws.take k) assetId)

/-- The leaves after the first `k` withdrawals. -/
def leavesAfter (ast : AccountStateTree) (ws : List (F × U256)) : ℕ → List HashOut
  | 0 => ast.tree.leaves
  | k + 1 =>
    match ws[k]? with
    | some w => (leavesAfter ast ws k).set (leafIndexOf ast w.1)
        (leafCommitment perm w.1 (leftAfter ast ws (k + 1) w.1))
    | none => leavesAfter ast ws k

/-- The root of an asset tree with these leaves. -/
def rootOf (leaves : ℕ → HashOut) : HashOut :=
  Lib.node (hashOutput perm).node leaves ACC_AST_DEPTH 0

/-- Two trees that differ at leaf `i` have one root: both leaves are one digest, or two pairs of
nodes have one parent. -/
def Clash (f g : ℕ → HashOut) (i : ℕ) : Prop :=
  rootOf perm f = rootOf perm g ∧
    (f i = g i ∨ ∃ l < ACC_AST_DEPTH, ∃ j, NodeCollision (hashOutput perm).node f g l j)

/-- Withdrawal `k` leaves something of its asset. -/
def Remains (ast : AccountStateTree) (ws : List (F × U256)) (k : ℕ) (assetId : F) : Prop :=
  requested (ws.take (k + 1)) assetId < (ast.balance assetId).toNat

/-- The zero leaf that the circuit opens after withdrawal `k` clashes with the one of amount zero. -/
def LeafClash (ast : AccountStateTree) (ws : List (F × U256)) (k : ℕ) (assetId : F) : Prop :=
  Clash perm
    (Function.update ((hashOutput perm).leafOf (leavesAfter perm ast ws k)) (leafIndexOf ast assetId) 0)
    ((hashOutput perm).leafOf (leavesAfter perm ast ws (k + 1))) (leafIndexOf ast assetId)

/-- The tree without leaves clashes with the one after all withdrawals. -/
def EmptyClash (ast : AccountStateTree) (ws : List (F × U256)) : Prop :=
  Clash perm ((hashOutput perm).leafOf [])
    ((hashOutput perm).leafOf (leavesAfter perm ast ws ws.length)) 0

/-- Slot `k` as the loop fills it. -/
def slotAt (ast : AccountStateTree) (ws : List (F × U256)) (k : ℕ) : WithdrawalSlot :=
  match ws[k]? with
  | some w => withdrawalSlot w (leftAfter ast ws k w.1)
      (proofOf (hashOutput perm) ACC_AST_DEPTH (leavesAfter perm ast ws k) (leafIndexOf ast w.1))
  | none => paddingSlot
      (proofOf (hashOutput perm) ACC_AST_DEPTH (leavesAfter perm ast ws k) ast.tree.numLeaves)

/-- Withdrawal `k` finds the leaf of its asset and takes no more than is left. -/
structure Opened (ast : AccountStateTree) (ws : List (F × U256)) (k : ℕ) (w : F × U256) : Prop where
  index : leafIndexOf ast w.1 < ast.tree.numLeaves
  leaf : (hashOutput perm).leafOf (leavesAfter perm ast ws k) (leafIndexOf ast w.1) =
    leafCommitment perm w.1 (leftAfter ast ws k w.1)
  covered : w.2.toNat ≤ (leftAfter ast ws k w.1).toNat
  left : (leftAfter ast ws (k + 1) w.1).toNat + requested (ws.take (k + 1)) w.1 =
    (ast.balance w.1).toNat

/-- The tree and the slots after the first `k` rounds. -/
structure Chained (ast₀ : AccountStateTree) (ws : List (F × U256)) (k : ℕ)
    (state : AccountStateTree × List WithdrawalSlot) : Prop where
  debited : Debited perm ast₀ state.1 (ws.take k)
  mirrors : Mirrors perm state.1 (leavesAfter perm ast₀ ws k)
  lookup : ∀ assetId ∈ ast₀.assets,
    state.1.amountFor assetId = some (leafIndexOf ast₀ assetId, leftAfter ast₀ ws k assetId)
  length : state.2.length = k
  slots : ∀ j < k, state.2[j]? = some (slotAt perm ast₀ ws j)
  opened : ∀ j < k, ∀ w, ws[j]? = some w → Opened perm ast₀ ws j w

variable {perm} {ast₀ : AccountStateTree} {ws : List (F × U256)} {w : F × U256} {k : ℕ}

theorem leavesAfter_length : (leavesAfter perm ast₀ ws k).length = ast₀.tree.numLeaves := by
  induction k with
  | zero => rfl
  | succ k ih =>
    rw [leavesAfter]
    split
    · rw [List.length_set, ih]
    · exact ih

theorem leavesAfter_padding (h : ws.length ≤ k) :
    leavesAfter perm ast₀ ws k = leavesAfter perm ast₀ ws ws.length := by
  induction k, h using Nat.le_induction with
  | base => rfl
  | succ k h ih => rw [leavesAfter, List.getElem?_eq_none h, ih]

theorem leavesAfter_withdrawal (hw : ws[k]? = some w) :
    leavesAfter perm ast₀ ws (k + 1) = (leavesAfter perm ast₀ ws k).set (leafIndexOf ast₀ w.1)
      (leafCommitment perm w.1 (leftAfter ast₀ ws (k + 1) w.1)) := by
  rw [leavesAfter, hw]

theorem slotAt_withdrawal (hw : ws[k]? = some w) :
    slotAt perm ast₀ ws k = withdrawalSlot w (leftAfter ast₀ ws k w.1)
      (proofOf (hashOutput perm) ACC_AST_DEPTH (leavesAfter perm ast₀ ws k)
        (leafIndexOf ast₀ w.1)) := by
  rw [slotAt, hw]

theorem slotAt_padding (hw : ws[k]? = none) :
    slotAt perm ast₀ ws k = paddingSlot
      (proofOf (hashOutput perm) ACC_AST_DEPTH (leavesAfter perm ast₀ ws k) ast₀.tree.numLeaves) := by
  rw [slotAt, hw]

/-- The proof of a slot has one sibling a level. -/
theorem slotAt_setWitness : StateSync.setWitness ACC_AST_DEPTH (slotAt perm ast₀ ws k).proof =
    some (pathTarget ACC_AST_DEPTH (slotAt perm ast₀ ws k).proof.siblings
      (slotAt perm ast₀ ws k).proof.path) := by
  cases hw : ws[k]? with
  | none =>
    rw [slotAt_padding hw]
    exact StateSync.setWitness_proofOf _ _
  | some w =>
    rw [slotAt_withdrawal hw]
    exact StateSync.setWitness_proofOf _ _

theorem lookup_of_mem {assetId : F} (h : assetId ∈ ast₀.assets) :
    ast₀.amountFor assetId = some (leafIndexOf ast₀ assetId, ast₀.balance assetId) := by
  obtain ⟨i, hentry⟩ := AccountStateTree.amountFor_of_mem h
  rw [leafIndexOf, hentry]
  rfl

theorem leftAfter_withdrawal (hw : ws[k]? = some w) :
    leftAfter ast₀ ws (k + 1) w.1 = leftAfter ast₀ ws k w.1 - w.2 := by
  have htake : requested (ws.take (k + 1)) w.1 = requested (ws.take k) w.1 + w.2.toNat := by
    rw [List.take_add_one, hw]
    exact requested_concat_self
  rw [leftAfter, leftAfter, htake, BitVec.ofNat_add, BitVec.ofNat_toNat, BitVec.setWidth_eq]
  bv_omega

theorem leftAfter_other (hw : ws[k]? = some w) {assetId : F} (h : w.1 ≠ assetId) :
    leftAfter ast₀ ws (k + 1) assetId = leftAfter ast₀ ws k assetId := by
  have htake : requested (ws.take (k + 1)) assetId = requested (ws.take k) assetId := by
    rw [List.take_add_one, hw]
    exact requested_concat_ne h
  rw [leftAfter, leftAfter, htake]

theorem leftAfter_padding (hw : ws[k]? = none) (assetId : F) :
    leftAfter ast₀ ws (k + 1) assetId = leftAfter ast₀ ws k assetId := by
  have hlen := List.getElem?_eq_none_iff.mp hw
  rw [leftAfter, leftAfter, List.take_of_length_le hlen, List.take_of_length_le (by omega)]

theorem Chained.start (hm : ∃ ds, Mirrors perm ast₀ ds) : Chained perm ast₀ ws 0 (ast₀, []) where
  debited := .start hm
  mirrors := by
    obtain ⟨ds, hds⟩ := hm
    rw [leavesAfter, hds.tree.leaves]
    exact hds
  lookup := fun a ha => by
    have hleft : leftAfter ast₀ ws 0 a = ast₀.balance a := BitVec.sub_zero _
    rw [hleft]
    exact lookup_of_mem ha
  length := rfl
  slots := fun j hj => absurd hj (Nat.not_lt_zero j)
  opened := fun j hj => absurd hj (Nat.not_lt_zero j)

/-- The slots of a state with one slot more. -/
theorem getElem?_concat_slots {slots : List WithdrawalSlot} {slot : WithdrawalSlot}
    (hlen : slots.length = k) (hslots : ∀ j < k, slots[j]? = some (slotAt perm ast₀ ws j))
    (hslot : slot = slotAt perm ast₀ ws k) :
    ∀ j < k + 1, (slots ++ [slot])[j]? = some (slotAt perm ast₀ ws j) := by
  intro j hj
  rcases Nat.lt_succ_iff_lt_or_eq.mp hj with hj | rfl
  · rw [List.getElem?_append_left (by omega)]
    exact hslots j hj
  · rw [← hslot, ← hlen]
    exact List.getElem?_concat_length

/-- One round of the loop. -/
theorem Chained.round {state state' : AccountStateTree × List WithdrawalSlot}
    (h : Chained perm ast₀ ws k state) (hround : slotRound perm ws k state = .ok state') :
    Chained perm ast₀ ws (k + 1) state' := by
  have hdebited := h.debited.round hround
  obtain ⟨filled, hfill, hret⟩ := bind_eq_ok.mp hround
  obtain rfl := pure_eq_ok.mp hret
  have hlength : (state.2 ++ [filled.2]).length = k + 1 := by
    rw [List.length_append, List.length_singleton, h.length]
  cases hw : ws[k]? with
  | none =>
    have hsame : leavesAfter perm ast₀ ws (k + 1) = leavesAfter perm ast₀ ws k := by
      rw [leavesAfter, hw]
    rw [hw, fillSlot_padding h.mirrors, Except.ok.injEq] at hfill
    rw [← hfill] at hdebited hlength ⊢
    refine ⟨hdebited, hsame ▸ h.mirrors, fun a ha => ?_, hlength, ?_, fun j hj v hv => ?_⟩
    · rw [leftAfter_padding hw]
      exact h.lookup a ha
    · refine getElem?_concat_slots h.length h.slots ?_
      rw [slotAt_padding hw, leavesAfter_length]
    · rcases Nat.lt_succ_iff_lt_or_eq.mp hj with hj | rfl
      · exact h.opened j hj v hv
      · rw [hw] at hv
        cases hv
  | some w =>
    rw [hw] at hfill
    obtain ⟨h0, i, oldBal, hentry, hcovered⟩ := fillSlot_needs h.mirrors hfill
    have hmem := (h.debited.known w.1).mp (AccountStateTree.mem_of_amountFor hentry)
    have hlookup := h.lookup w.1 hmem
    rw [hentry, Option.some.injEq, Prod.mk.injEq] at hlookup
    obtain ⟨rfl, rfl⟩ := hlookup
    obtain ⟨ast', hok, hassets, hi, hm'⟩ := fillSlot_withdrawal h.mirrors h0 hentry hcovered
    rw [hok, Except.ok.injEq] at hfill
    rw [← hfill] at hdebited hlength ⊢
    have hnew : ast'.amountFor w.1 = some (leafIndexOf ast₀ w.1, leftAfter ast₀ ws (k + 1) w.1) := by
      rw [leftAfter_withdrawal hw, AccountStateTree.amountFor, hassets]
      exact AList.lookup_insert _
    refine ⟨hdebited, ?_, fun a ha => ?_, hlength, ?_, fun j hj v hv => ?_⟩
    · rw [leavesAfter_withdrawal hw, leftAfter_withdrawal hw]
      exact hm'
    · by_cases hne : w.1 = a
      · rw [← hne]
        exact hnew
      · rw [leftAfter_other hw hne, AccountStateTree.amountFor, hassets,
          AList.lookup_insert_ne (Ne.symm hne)]
        exact h.lookup a ha
    · exact getElem?_concat_slots h.length h.slots (slotAt_withdrawal hw).symm
    · rcases Nat.lt_succ_iff_lt_or_eq.mp hj with hj | rfl
      · exact h.opened j hj v hv
      · obtain rfl := Option.some.inj (hw.symm.trans hv)
        have hleaf := h.mirrors.leaf ⟨w.1, _⟩ (AList.mem_lookup_iff.mp hentry)
        rw [leafOf_getElem? hi] at hleaf
        have hbalance := hdebited.balance w.1
        rw [AccountStateTree.balance_of_amountFor hnew] at hbalance
        exact ⟨leavesAfter_length ▸ hi, Option.some.inj hleaf, hcovered, hbalance⟩

/-- What `compute_withdrawal_slots` returns. -/
theorem computeWithdrawalSlots_eq_ok {accin : StandardAccount} {slots : WithdrawalSlots}
    (hm : ∃ ds, Mirrors perm accin.ast ds) (h : computeWithdrawalSlots perm accin ws = .ok slots) :
    (∀ k < NOTE_BATCH, slots.slots[k]? = some (slotAt perm accin.ast ws k)) ∧
      (∀ k < NOTE_BATCH, ∀ w, ws[k]? = some w → Opened perm accin.ast ws k w) ∧
      slots.accout.ast.root perm =
        .ok (rootOf perm ((hashOutput perm).leafOf (leavesAfter perm accin.ast ws NOTE_BATCH))) := by
  obtain ⟨filled, hloop, hret⟩ := bind_eq_ok.mp h
  have hchained := tryLoop_inv (Chained perm accin.ast ws) (Chained.start hm)
    (fun k _ state state' hstate hround => hstate.round hround) hloop
  rw [← pure_eq_ok.mp hret]
  exact ⟨hchained.slots, hchained.opened, hchained.mirrors.root⟩

/-! ## The roots of one slot -/

section Roots

variable {f g : ℕ → HashOut} {i : ℕ}

/-- Trees with one root agree on their leaves or collide. -/
theorem clash_iff (hi : i < 2 ^ ACC_AST_DEPTH) : Clash perm f g i ↔ rootOf perm f = rootOf perm g := by
  refine ⟨fun h => h.1, fun hroot => ⟨hroot, ?_⟩⟩
  by_contra hfree
  rw [not_or] at hfree
  refine hfree.1 (leaf_eq_of_node_eq hroot (fun l hl j _ hcollision => ?_) (Nat.div_eq_of_lt hi))
  exact hfree.2 ⟨l, hl, j, hcollision⟩

theorem leafOf_set {ds : List HashOut} (hi : i < ds.length) (x : HashOut) :
    (hashOutput perm).leafOf (ds.set i x) = Function.update ((hashOutput perm).leafOf ds) i x := by
  funext j
  by_cases hj : j = i
  · rw [hj, Function.update_self, MerkleHash.leafOf, List.getD_eq_getElem?_getD,
      List.getElem?_set_self hi]
    rfl
  · rw [Function.update_of_ne hj]
    exact leafOf_set_of_ne hj

variable (perm) in
/-- The root along the proof of a slot, with some leaf. -/
def pathRoot (proof : MerkleProof HashOut) (leaf : HashOut) : HashOut :=
  (pathTarget ACC_AST_DEPTH proof.siblings proof.path).root perm leaf

variable (perm) in
/-- The roots that slot `slot` opens, before and after. -/
def rootIn (slot : WithdrawalSlot) : HashOut :=
  pathRoot perm slot.proof
    (existsOrDefault perm slot.assetId (U256Target.set slot.accinAmt) (boolTarget slot.existsIn))

variable (perm) in
def rootOut (slot : WithdrawalSlot) : HashOut :=
  pathRoot perm slot.proof
    (existsOrDefault perm slot.assetId (U256Target.set slot.accoutAmt) (boolTarget slot.existsOut))

theorem pathRoot_proofOf {ds : List HashOut} (hi : i < 2 ^ ACC_AST_DEPTH) (x : HashOut) :
    pathRoot perm (proofOf (hashOutput perm) ACC_AST_DEPTH ds i) x =
      rootOf perm (Function.update ((hashOutput perm).leafOf ds) i x) :=
  StateSync.pathTarget_proofOf_root hi ds x

/-- Behind the last leaf of a full tree lies the path of the first leaf of an empty one. -/
theorem proofOf_full {ds : List HashOut} (hlen : ds.length = 2 ^ ACC_AST_DEPTH) :
    (proofOf (hashOutput perm) ACC_AST_DEPTH ds ds.length).siblings =
        (proofOf (hashOutput perm) ACC_AST_DEPTH [] 0).siblings ∧
      (proofOf (hashOutput perm) ACC_AST_DEPTH ds ds.length).path =
        (proofOf (hashOutput perm) ACC_AST_DEPTH [] 0).path := by
  have hbit : ∀ l < ACC_AST_DEPTH, (2 ^ ACC_AST_DEPTH).testBit l = false := fun l hl =>
    Nat.testBit_two_pow_of_ne (Nat.ne_of_gt hl)
  have hladder : ∀ (ls : List HashOut) (i l : ℕ), ls.length ≤ i * 2 ^ l →
      Lib.node (hashOutput perm).node ((hashOutput perm).leafOf ls) l i =
        ladder (hashOutput perm).node (hashOutput perm).ZERO l := fun ls i l hle =>
    node_eq_ladder fun j hj _ => leafOf_fresh (hle.trans hj)
  rw [hlen]
  constructor
  · refine List.map_congr_left fun l hl => ?_
    have hl := List.mem_range.mp hl
    have hpow : 2 ^ ACC_AST_DEPTH / 2 ^ l * 2 ^ l = 2 ^ ACC_AST_DEPTH :=
      Nat.div_mul_cancel (pow_dvd_pow 2 hl.le)
    rw [siblingOf, siblingOf, hbit l hl, Nat.zero_testBit, if_neg Bool.false_ne_true,
      if_neg Bool.false_ne_true, hladder ds _ l (by rw [Nat.add_mul, hpow, hlen]; exact Nat.le_add_right _ _),
      hladder [] _ l (Nat.zero_le _)]
  · refine List.map_congr_left fun l hl => ?_
    rw [hbit l (List.mem_range.mp hl), Nat.zero_testBit]

/-- The zero leaf on the path behind the last leaf. -/
theorem pathRoot_padding {ds : List HashOut} (hlen : ds.length ≤ 2 ^ ACC_AST_DEPTH) :
    pathRoot perm (proofOf (hashOutput perm) ACC_AST_DEPTH ds ds.length) 0 =
      if ds.length < 2 ^ ACC_AST_DEPTH then rootOf perm ((hashOutput perm).leafOf ds)
      else rootOf perm ((hashOutput perm).leafOf []) := by
  split
  · rename_i hroom
    have hzero : (hashOutput perm).leafOf ds ds.length = 0 := leafOf_fresh (Nat.le_refl _)
    rw [pathRoot_proofOf hroom, ← hzero, Function.update_eq_self]
  · rename_i hfull
    obtain ⟨hsiblings, hpath⟩ := @proofOf_full perm ds (by omega)
    have hzero : (hashOutput perm).leafOf [] 0 = 0 := leafOf_fresh (Nat.zero_le _)
    have hroot := @pathRoot_proofOf perm 0 [] (Nat.two_pow_pos _) 0
    rw [← hzero, Function.update_eq_self, hzero] at hroot
    rw [← hroot, pathRoot, pathRoot, hsiblings, hpath]

end Roots

section SlotRoots

variable (perm) in
/-- The root after the first `k` withdrawals. -/
def rootAt (ast : AccountStateTree) (ws : List (F × U256)) (k : ℕ) : HashOut :=
  rootOf perm ((hashOutput perm).leafOf (leavesAfter perm ast ws k))

theorem rootAt_padding (hw : ws[k]? = none) : rootAt perm ast₀ ws (k + 1) = rootAt perm ast₀ ws k := by
  rw [rootAt, rootAt, leavesAfter, hw]

/-- A withdrawal is opened against the tree it finds. -/
theorem rootIn_withdrawal (hw : ws[k]? = some w) (hopened : Opened perm ast₀ ws k w)
    (hroom : ast₀.tree.numLeaves ≤ 2 ^ ACC_AST_DEPTH) :
    rootIn perm (slotAt perm ast₀ ws k) = rootAt perm ast₀ ws k := by
  have hslot : rootIn perm (slotAt perm ast₀ ws k) = pathRoot perm
      (proofOf (hashOutput perm) ACC_AST_DEPTH (leavesAfter perm ast₀ ws k) (leafIndexOf ast₀ w.1))
      (leafCommitment perm w.1 (leftAfter ast₀ ws k w.1)) := by
    rw [rootIn, slotAt_withdrawal hw]
    exact congrArg _ (ifElseHash_one _ _)
  rw [hslot, pathRoot_proofOf (hopened.index.trans_le hroom), ← hopened.leaf,
    Function.update_eq_self]
  rfl

theorem Opened.left_pos (hopened : Opened perm ast₀ ws k w) :
    leftAfter ast₀ ws (k + 1) w.1 > 0 ↔ Remains ast₀ ws k w.1 := by
  have hleft := hopened.left
  show (0 : U256).toNat < (leftAfter ast₀ ws (k + 1) w.1).toNat ↔ _
  rw [Remains, show (0 : U256).toNat = 0 from rfl]
  omega

/-- The tree after a withdrawal is the one that the circuit opens, if something is left or the two
leaves clash. -/
theorem rootOut_withdrawal (hw : ws[k]? = some w) (hopened : Opened perm ast₀ ws k w)
    (hroom : ast₀.tree.numLeaves ≤ 2 ^ ACC_AST_DEPTH) :
    rootOut perm (slotAt perm ast₀ ws k) = rootAt perm ast₀ ws (k + 1) ↔
      Remains ast₀ ws k w.1 ∨ LeafClash perm ast₀ ws k w.1 := by
  have hi := hopened.index.trans_le hroom
  have hset : (hashOutput perm).leafOf (leavesAfter perm ast₀ ws (k + 1)) =
      Function.update ((hashOutput perm).leafOf (leavesAfter perm ast₀ ws k)) (leafIndexOf ast₀ w.1)
        (leafCommitment perm w.1 (leftAfter ast₀ ws (k + 1) w.1)) := by
    rw [leavesAfter_withdrawal hw]
    exact leafOf_set (leavesAfter_length ▸ hopened.index) _
  have hslot : rootOut perm (slotAt perm ast₀ ws k) = rootOf perm
      (Function.update ((hashOutput perm).leafOf (leavesAfter perm ast₀ ws k)) (leafIndexOf ast₀ w.1)
        (existsOrDefault perm w.1 (U256Target.set (leftAfter ast₀ ws (k + 1) w.1))
          (boolTarget (leftAfter ast₀ ws (k + 1) w.1 > 0)))) := by
    rw [leftAfter_withdrawal hw, rootOut, slotAt_withdrawal hw]
    exact pathRoot_proofOf hi _
  rw [LeafClash, clash_iff hi, hslot, rootAt]
  by_cases hremains : Remains ast₀ ws k w.1
  · have hflag : decide (leftAfter ast₀ ws (k + 1) w.1 > 0) = true :=
      decide_eq_true (hopened.left_pos.mpr hremains)
    have hleaf : existsOrDefault perm w.1 (U256Target.set (leftAfter ast₀ ws (k + 1) w.1))
        (boolTarget true) = leafCommitment perm w.1 (leftAfter ast₀ ws (k + 1) w.1) := ifElseHash_one _ _
    rw [hflag, hleaf, ← hset]
    exact iff_of_true rfl (.inl hremains)
  · have hflag : decide (leftAfter ast₀ ws (k + 1) w.1 > 0) = false :=
      decide_eq_false fun h => hremains (hopened.left_pos.mp h)
    have hleaf : existsOrDefault perm w.1 (U256Target.set (leftAfter ast₀ ws (k + 1) w.1))
        (boolTarget false) = 0 := ifElseHash_zero _ _
    rw [hflag, hleaf]
    exact (or_iff_right hremains).symm

/-- A padding slot opens one root, that of its tree if there is room. -/
theorem root_padding (hw : ws[k]? = none) (hroom : ast₀.tree.numLeaves ≤ 2 ^ ACC_AST_DEPTH) :
    rootOut perm (slotAt perm ast₀ ws k) = rootIn perm (slotAt perm ast₀ ws k) ∧
      (rootIn perm (slotAt perm ast₀ ws k) = rootAt perm ast₀ ws k ↔
        ast₀.tree.numLeaves < 2 ^ ACC_AST_DEPTH ∨ EmptyClash perm ast₀ ws) := by
  have hlen := @leavesAfter_length perm ast₀ ws k
  have hsame := @leavesAfter_padding perm ast₀ ws k (List.getElem?_eq_none_iff.mp hw)
  have hslot : rootIn perm (slotAt perm ast₀ ws k) = pathRoot perm
      (proofOf (hashOutput perm) ACC_AST_DEPTH (leavesAfter perm ast₀ ws k)
        (leavesAfter perm ast₀ ws k).length) 0 := by
    rw [rootIn, slotAt_padding hw, hlen]
    exact congrArg _ (ifElseHash_zero _ _)
  refine ⟨by rw [rootOut, rootIn, slotAt_padding hw]; rfl, ?_⟩
  rw [EmptyClash, clash_iff (Nat.two_pow_pos _), hslot, pathRoot_padding (hlen ▸ hroom), hlen, rootAt]
  split
  · rename_i hfree
    exact iff_of_true rfl (.inl hfree)
  · rename_i hfull
    rw [hsame, or_iff_right hfull]

end SlotRoots

/-! ## The constraints of one slot -/

/-- A slot whose flags and amounts agree. -/
structure Coherent (slot : WithdrawalSlot) : Prop where
  absent_in : slot.existsIn = false → slot.accinAmt = 0
  absent_out : slot.existsOut = false → slot.accoutAmt = 0
  balance : slot.accinAmt.toNat = slot.accoutAmt.toNat + slot.withdrawalAmt.toNat

theorem coherent_padding (proof : MerkleProof HashOut) : Coherent (paddingSlot proof) :=
  ⟨fun _ => rfl, fun _ => rfl, rfl⟩

theorem coherent_withdrawal {oldBal : U256} (hcovered : w.2.toNat ≤ oldBal.toNat)
    (proof : MerkleProof HashOut) : Coherent (withdrawalSlot w oldBal proof) where
  absent_in := fun h => by cases h
  absent_out := fun h => by
    have hzero : ¬ (0 : U256).toNat < (oldBal - w.2).toNat := of_decide_eq_false h
    exact BitVec.eq_of_toNat_eq (Nat.eq_zero_of_not_pos hzero)
  balance := by
    show oldBal.toNat = (oldBal - w.2).toNat + w.2.toNat
    rw [BitVec.toNat_sub_of_le hcovered]
    omega

theorem slotAt_coherent (hopened : ∀ w, ws[k]? = some w → Opened perm ast₀ ws k w) :
    Coherent (slotAt perm ast₀ ws k) := by
  cases hw : ws[k]? with
  | none =>
    rw [slotAt_padding hw]
    exact coherent_padding _
  | some w =>
    rw [slotAt_withdrawal hw]
    exact coherent_withdrawal (hopened w hw).covered _

/-- An amount that is cleared with its flag. -/
theorem absent_boolTarget {b : Bool} {amount : U256} (h : b = false → amount = 0) (k : Fin 8) :
    CondEq (Circuit.not (boolTarget b)) (U256Target.set amount k) 0 := by
  cases b with
  | true =>
    show CondEq (Circuit.not 1) _ 0
    rw [not_one]
    exact condEq_zero _ _
  | false =>
    rw [h rfl, U256Target.set_zero]
    exact condEq_self _ _

section Holds

variable {t : WithdrawTxTargets} {i : Fin NOTE_BATCH} {slot : WithdrawalSlot}

theorem astMerkle_eq (h : t.HoldsSlot i slot) :
    t.astMerkles i = pathTarget ACC_AST_DEPTH slot.proof.siblings slot.proof.path := by
  have hpath := h.ast_merkle
  unfold StateSync.setWitness at hpath
  split at hpath
  · exact (Option.some.inj hpath).symm
  · cases hpath

/-- The update of a slot holds between the two roots that it opens. -/
theorem astUpdate_iff (h : t.HoldsSlot i slot) (hslot : Coherent slot) {prev curr : HashOut} :
    AssertAstUpdate perm (t.astMerkles i) (t.assetIds i) (t.accinAmts i) (t.accoutAmts i) prev curr
      (t.assetExistsInAccin i) (t.assetExistsInAccout i) ↔
      rootIn perm slot = prev ∧ rootOut perm slot = curr := by
  have hpath := @StateSync.pathTarget_satisfied ACC_AST_DEPTH slot.proof.siblings slot.proof.path
  rw [astMerkle_eq h, h.asset_id, h.accin_amt, h.accout_amt, h.exists_in, h.exists_out]
  exact ⟨fun hupdate => ⟨hupdate.accin.root, hupdate.accout.root⟩, fun hroots =>
    ⟨⟨hpath, hroots.1, absent_boolTarget hslot.absent_in⟩,
      ⟨hpath, hroots.2, absent_boolTarget hslot.absent_out⟩⟩⟩

/-- The chain that adds the withdrawal to what is left. -/
def sumOf (slot : WithdrawalSlot) : U256AdditionChain :=
  U256AdditionChain.generate (U256Target.set slot.accoutAmt) ![U256Target.set slot.withdrawalAmt]

theorem sumOf_spec (hslot : Coherent slot) :
    (sumOf slot).Satisfied (U256Target.set slot.accoutAmt) ![U256Target.set slot.withdrawalAmt] ∧
      U256Target.set slot.accinAmt = (sumOf slot).result := by
  obtain ⟨hsat, hresult⟩ := U256AdditionChain.generate_add hslot.balance.symm
  exact ⟨hsat, hresult.symm⟩

end Holds

/-! ## The chain of all slots -/

section Chain

variable {accin : StandardAccount} {slots : WithdrawalSlots} {t : WithdrawTxTargets}

/-- The intermediate roots are those of the trees, from the last one back: a withdrawal opens its own
tree, and padding hands on the root that comes after it. -/
theorem rootAfter_eq (hroom : ast₀.tree.numLeaves ≤ 2 ^ ACC_AST_DEPTH)
    (hopened : ∀ k < NOTE_BATCH, ∀ w, ws[k]? = some w → Opened perm ast₀ ws k w)
    (hroots : ∀ i : Fin NOTE_BATCH, rootIn perm (slotAt perm ast₀ ws i.val) = t.prevRoot i ∧
      rootOut perm (slotAt perm ast₀ ws i.val) = t.currRoot i)
    (haccout : t.accout.accAstRoot = rootAt perm ast₀ ws NOTE_BATCH) :
    ∀ d ≤ NOTE_BATCH, t.rootAfter (NOTE_BATCH - d) = rootAt perm ast₀ ws (NOTE_BATCH - d) := by
  intro d hd
  induction d with
  | zero => exact haccout
  | succ d ih =>
    obtain ⟨k, hk⟩ : ∃ k, NOTE_BATCH - d = k + 1 := ⟨NOTE_BATCH - d - 1, by omega⟩
    have hlt : k < NOTE_BATCH := by omega
    have hnext := ih (by omega)
    obtain ⟨hin, hout⟩ := hroots ⟨k, hlt⟩
    rw [t.prevRoot_eq] at hin
    rw [t.currRoot_eq] at hout
    rw [hk] at hnext
    rw [show NOTE_BATCH - (d + 1) = k by omega, ← hin]
    cases hw : ws[k]? with
    | some w => exact rootIn_withdrawal hw (hopened k hlt w hw) hroom
    | none =>
      rw [← (root_padding hw hroom).1, hout, ← rootAt_padding hw]
      exact hnext

theorem setWitness_root {acc : StandardAccount} {r : HashOut} {target : AccountTarget}
    (hroot : acc.ast.root perm = .ok r) (h : AccountTarget.setWitness perm acc = .ok target) :
    target.accAstRoot = r := by
  rw [AccountTarget.setWitness, hroot] at h
  obtain rfl := Except.ok.inj h
  rfl

variable (perm) in
/-- The targets that `prove` and the generators fill. -/
def chainTargets (accin accout : AccountTarget) (slots : Fin NOTE_BATCH → WithdrawalSlot)
    (roots : ℕ → HashOut) : WithdrawTxTargets :=
  { BridgeRoots.withdraw perm (.real perm) with
    accin := accin
    accout := accout
    assetIds := fun i => (slots i).assetId
    withdrawalAmts := fun i => U256Target.set (slots i).withdrawalAmt
    accinAmts := fun i => U256Target.set (slots i).accinAmt
    accoutAmts := fun i => U256Target.set (slots i).accoutAmt
    assetExistsInAccin := fun i => boolTarget (slots i).existsIn
    assetExistsInAccout := fun i => boolTarget (slots i).existsOut
    intermediateRoots := fun i => roots (i.val + 1)
    rhs := fun i => sumOf (slots i)
    astMerkles := fun i =>
      pathTarget ACC_AST_DEPTH (slots i).proof.siblings (slots i).proof.path }

/-- The slots satisfy the chain if and only if each opens the trees before and after it. -/
theorem provable_iff (hm : ∃ ds, Mirrors perm accin.ast ds)
    (h : computeWithdrawalSlots perm accin ws = .ok slots) :
    Provable perm accin ws ↔ ∀ k < NOTE_BATCH,
      rootIn perm (slotAt perm accin.ast ws k) = rootAt perm accin.ast ws k ∧
        rootOut perm (slotAt perm accin.ast ws k) = rootAt perm accin.ast ws (k + 1) := by
  obtain ⟨hslots, hopened, haccout⟩ := computeWithdrawalSlots_eq_ok hm h
  obtain ⟨ds, hds⟩ := hm
  have hroom : accin.ast.tree.numLeaves ≤ 2 ^ ACC_AST_DEPTH := by
    rw [hds.numLeaves]
    exact hds.room
  have haccin : accin.ast.root perm = .ok (rootAt perm accin.ast ws 0) := by
    rw [rootAt, leavesAfter, hds.tree.leaves]
    exact hds.root
  have hcoherent : ∀ k < NOTE_BATCH, Coherent (slotAt perm accin.ast ws k) := fun k hk =>
    slotAt_coherent (hopened k hk)
  constructor
  · rintro ⟨slots', hslots', t, ht, hchain⟩ k hk
    obtain rfl := Except.ok.inj (h.symm.trans hslots')
    have hroots : ∀ i : Fin NOTE_BATCH,
        rootIn perm (slotAt perm accin.ast ws i.val) = t.prevRoot i ∧
          rootOut perm (slotAt perm accin.ast ws i.val) = t.currRoot i := by
      intro i
      obtain ⟨slot, hslot, hholds⟩ := ht.slot i
      obtain rfl := Option.some.inj (hslot.symm.trans (hslots i.val i.isLt))
      exact (astUpdate_iff hholds (hcoherent i.val i.isLt)).mp (hchain.ast i)
    have hafter := rootAfter_eq hroom hopened hroots (setWitness_root haccout ht.accout)
    obtain ⟨hin, hout⟩ := hroots ⟨k, hk⟩
    have hprev := hafter (NOTE_BATCH - k) (by omega)
    have hcurr := hafter (NOTE_BATCH - (k + 1)) (by omega)
    rw [show NOTE_BATCH - (NOTE_BATCH - k) = k by omega] at hprev
    rw [show NOTE_BATCH - (NOTE_BATCH - (k + 1)) = k + 1 by omega] at hcurr
    rw [hin, hout, t.prevRoot_eq, t.currRoot_eq]
    exact ⟨hprev, hcurr⟩
  · intro hroots
    obtain ⟨tin, htin⟩ : ∃ tin, AccountTarget.setWitness perm accin = .ok tin :=
      ⟨_, bind_eq_ok.mpr ⟨_, haccin, rfl⟩⟩
    obtain ⟨tout, htout⟩ : ∃ tout, AccountTarget.setWitness perm slots.accout = .ok tout :=
      ⟨_, bind_eq_ok.mpr ⟨_, haccout, rfl⟩⟩
    have hrootIn := setWitness_root haccin htin
    have hrootOut := setWitness_root haccout htout
    have hholds : ∀ i : Fin NOTE_BATCH,
        (chainTargets perm tin tout (fun i => slotAt perm accin.ast ws i.val)
          (rootAt perm accin.ast ws)).HoldsSlot i (slotAt perm accin.ast ws i.val) := fun i =>
      ⟨rfl, rfl, rfl, rfl, rfl, rfl, slotAt_setWitness⟩
    refine ⟨slots, h, _, ⟨htin, htout, fun i => ⟨_, hslots i.val i.isLt, hholds i⟩⟩, ?_⟩
    refine {
      asset_exists_in_accin := fun i => Spend.isBool_boolTarget _
      asset_exists_in_accout := fun i => Spend.isBool_boolTarget _
      rhs := fun i => (sumOf_spec (hcoherent i.val i.isLt)).1
      balance := fun i => (sumOf_spec (hcoherent i.val i.isLt)).2
      ast := fun i => (astUpdate_iff (hholds i) (hcoherent i.val i.isLt)).mpr ?_ }
    obtain ⟨hin, hout⟩ := hroots i.val i.isLt
    rw [hin, hout]
    refine ⟨?_, ?_⟩
    · unfold WithdrawTxTargets.prevRoot
      split
      · rename_i hpos
        exact congrArg (rootAt perm accin.ast ws) (by show i.val = i.val - 1 + 1; omega)
      · rename_i hzero
        rw [show i.val = 0 by omega]
        exact hrootIn.symm
    · unfold WithdrawTxTargets.currRoot
      split
      · rfl
      · rename_i hlast
        have hi := i.isLt
        rw [show i.val + 1 = NOTE_BATCH by omega]
        exact hrootOut.symm

end Chain

/-! ## Built withdrawals -/

section Built

variable {accin : StandardAccount} {b : WithdrawRealTxBuilder} {tx : BuiltWithdrawRealTx}

theorem build_eq_ok (h : b.build perm = .ok tx) : tx.accin = b.accin ∧ tx.withdrawals = b.withdrawals ∧
    ∃ slots, computeWithdrawalSlots perm b.accin b.withdrawals = .ok slots := by
  rcases build_cases perm b with ⟨-, hbuild⟩ | ⟨w, -, -, hbuild⟩ | ⟨-, -, hbuild⟩
  · rw [hbuild] at h
    cases h
  · rw [hbuild] at h
    cases h
  · rw [hbuild] at h
    obtain ⟨slots, hslots, h⟩ := bind_eq_ok.mp h
    obtain ⟨null, -, h⟩ := bind_eq_ok.mp h
    obtain ⟨comm, -, h⟩ := bind_eq_ok.mp h
    rw [← pure_eq_ok.mp h]
    exact ⟨rfl, rfl, slots, orPanic_eq_ok.mp hslots⟩

/-- All slots meet the trees, once every withdrawal does and padding has room. -/
theorem slots_iff (hroom : ast₀.tree.numLeaves ≤ 2 ^ ACC_AST_DEPTH) (hlen : ws.length ≤ NOTE_BATCH)
    (hopened : ∀ k < NOTE_BATCH, ∀ w, ws[k]? = some w → Opened perm ast₀ ws k w) :
    (∀ k < NOTE_BATCH, rootIn perm (slotAt perm ast₀ ws k) = rootAt perm ast₀ ws k ∧
      rootOut perm (slotAt perm ast₀ ws k) = rootAt perm ast₀ ws (k + 1)) ↔
      (∀ k w, ws[k]? = some w → Remains ast₀ ws k w.1 ∨ LeafClash perm ast₀ ws k w.1) ∧
        (ws.length = NOTE_BATCH ∨ ast₀.tree.numLeaves < 2 ^ ACC_AST_DEPTH ∨
          EmptyClash perm ast₀ ws) := by
  constructor
  · refine fun h => ⟨fun k w hw => ?_, ?_⟩
    · have hk : k < NOTE_BATCH := (List.getElem?_eq_some_iff.mp hw).1.trans_le hlen
      exact (rootOut_withdrawal hw (hopened k hk w hw) hroom).mp (h k hk).2
    · rcases Nat.lt_or_eq_of_le hlen with hlt | hfull
      · exact .inr ((root_padding (List.getElem?_eq_none (Nat.le_refl _)) hroom).2.mp
          (h ws.length hlt).1)
      · exact .inl hfull
  · rintro ⟨hleaves, hpadding⟩ k hk
    cases hw : ws[k]? with
    | some w =>
      exact ⟨rootIn_withdrawal hw (hopened k hk w hw) hroom,
        (rootOut_withdrawal hw (hopened k hk w hw) hroom).mpr (hleaves k w hw)⟩
    | none =>
      have hshort : ws.length ≠ NOTE_BATCH := by
        have := List.getElem?_eq_none_iff.mp hw
        omega
      obtain ⟨hsame, hin⟩ := root_padding hw hroom
      have hmeets := hin.mpr (hpadding.resolve_left hshort)
      rw [hsame, rootAt_padding hw]
      exact ⟨hmeets, hmeets⟩

end Built

/-! ## An account that is emptied -/

section Emptied

variable {assetId : F} {amount : U256} {acc : StandardAccount}

/-- One withdrawal that the balance covers is built. -/
theorem Funded.build_ok (hacc : Funded perm assetId amount acc) (h0 : assetId ≠ 0) {x : U256}
    (hle : x.toNat ≤ amount.toNat) : ∃ b₀ b tx, WithdrawRealTxBuilder.new acc 0 = .ok b₀ ∧
      b₀.addWithdrawals [(assetId, x)] = .ok b ∧ b.build perm = .ok tx := by
  have hws : ∀ w ∈ [(assetId, x)], w.1 = assetId := fun w hw => by rw [List.mem_singleton.mp hw]
  have hsum : requested [(assetId, x)] assetId = x.toNat := by simp [requested]
  obtain ⟨b₀, b, hnew, hadd, hb⟩ := @withdrawals_run acc [(assetId, x)] hacc.nonce 0
    (show 1 ≤ NOTE_BATCH by decide)
  have haccin : b.accin = acc := by rw [hb]
  have hlist : b.withdrawals = [(assetId, x)] := by rw [hb]
  have hone : 1 ≤ NOTE_BATCH := by decide
  have hfinish : ∃ tx, b.finish perm = .ok tx := by
    refine (finish_iff ⟨_, by rw [haccin]; exact hacc.mirrors⟩ (by rw [hlist]; exact hone)).mpr ?_
    rw [haccin, hlist]
    exact ⟨hacc.known h0 hws, (hacc.covered_iff hws).mpr (hsum.trans_le hle), hacc.keySet⟩
  obtain ⟨tx, htx⟩ := hfinish
  refine ⟨b₀, b, tx, hnew, hadd, ?_⟩
  rcases build_cases perm b with ⟨hempty, -⟩ | ⟨w, hw, hlt, -⟩ | ⟨-, -, hbuild⟩
  · rw [hlist] at hempty
    cases hempty
  · rw [hlist] at hw
    rw [List.mem_singleton.mp hw, haccin, hacc.balance] at hlt
    exact absurd hlt (Nat.not_lt.mpr hle)
  · exact hbuild.trans htx

theorem Funded.leaves (hacc : Funded perm assetId amount acc) :
    acc.ast.tree.leaves = [leafCommitment perm 0 0, leafCommitment perm assetId amount] :=
  hacc.mirrors.tree.leaves

theorem Funded.leafIndex (hacc : Funded perm assetId amount acc) : leafIndexOf acc.ast assetId = 1 := by
  rw [leafIndexOf, hacc.entry]
  rfl

/-- Without its second leaf the tree is a new one. -/
theorem emptied_claimed (x y : HashOut) :
    Function.update ((hashOutput perm).leafOf [x, y]) 1 0 = (hashOutput perm).leafOf [x] := by
  funext j
  rcases j with _ | _ | j
  · rfl
  · rfl
  · rfl

/-- Two leaves and the default nodes beside them, one level up. -/
def pairLevels (x y : List ℕ) (l : ℕ) : List ℕ × List ℕ :=
  levelTable^[l] (hashTable (x ++ y), hashTable ([0, 0, 0, 0] ++ [0, 0, 0, 0]))

theorem digest_pairLevels {x y : List ℕ} (hx : x.length = 4) (hy : y.length = 4) (l : ℕ) :
    Lib.node (hashOutput poseidon).node ((hashOutput poseidon).leafOf [digest x, digest y]) (l + 1) 0 =
        digest (pairLevels x y l).1 ∧
      ladder (hashOutput poseidon).node 0 (l + 1) = digest (pairLevels x y l).2 ∧
      (pairLevels x y l).1.length = 4 ∧ (pairLevels x y l).2.length = 4 := by
  induction l with
  | zero =>
    have hzero : (0 : HashOut) = digest [0, 0, 0, 0] := by
      funext i
      fin_cases i <;> exact Nat.cast_zero.symm
    refine ⟨hash2to1_table hx hy, ?_, hashTable_length _, hashTable_length _⟩
    rw [ladder_succ, ladder_zero, hzero]
    exact hash2to1_table rfl rfl
  | succ l ih =>
    obtain ⟨hpath, hdefault, hlen, hlen'⟩ := ih
    have hright : Lib.node (hashOutput poseidon).node
        ((hashOutput poseidon).leafOf [digest x, digest y]) (l + 1) (2 * 0 + 1) =
          digest (pairLevels x y l).2 := by
      rw [← hdefault]
      refine node_eq_ladder fun j hj _ => leafOf_fresh ?_
      have hpos : 0 < 2 ^ l := Nat.two_pow_pos l
      rw [pow_succ] at hj
      show 2 ≤ j
      omega
    rw [pairLevels, Function.iterate_succ_apply']
    refine ⟨?_, ?_, hashTable_length _, hashTable_length _⟩
    · rw [node_succ, hright, Nat.mul_zero, hpath]
      exact hash2to1_table hlen hlen'
    · rw [ladder_succ, hdefault]
      exact hash2to1_table hlen' hlen'

/-- Asset `1` with amount zero. -/
def emptiedTable : List ℕ := hashTable [1312, 1, 0, 0, 0, 0, 0, 0, 0, 0]

theorem emptiedTable_length : emptiedTable.length = 4 := hashTable_length _

theorem digest_emptiedTable : leafCommitment poseidon 1 0 = digest emptiedTable := by
  rw [emptiedTable, ← hashNoPad_table]
  rfl

theorem pairLevels_nine : (pairLevels leafTable emptiedTable 9).1 =
    [10759529509453395784, 15954607520185094086, 3509843490846211581, 10697480980350697558] := by
  have hfour : pairLevels leafTable emptiedTable 4 =
      ([16015056412688843404, 1494455713398401774, 14653393489453565369, 3680117411850037206],
        [16854358529591173550, 9704301947898025017, 13222045073939169687,
          14989445859181028978]) := by
    decide +kernel
  have hsplit : pairLevels leafTable emptiedTable 9 =
      levelTable^[5] (pairLevels leafTable emptiedTable 4) :=
    Function.iterate_add_apply levelTable 5 4 _
  rw [hsplit, hfour]
  decide +kernel

/-- The tree that keeps a leaf of amount zero has another root than a new one. -/
theorem emptied_root_ne : rootOf poseidon ((hashOutput poseidon).leafOf
    [leafCommitment poseidon 0 0, leafCommitment poseidon 1 0]) ≠ AST_DEFAULT_ROOT := by
  obtain ⟨hpath, -⟩ := digest_pairLevels leafTable_length emptiedTable_length 9
  rw [pairLevels_nine, ← digest_leafTable] at hpath
  rw [digest_emptiedTable]
  intro hroot
  have hzero := congrFun (hpath.symm.trans hroot) 0
  exact absurd hzero (by decide)

end Emptied

/-- The slots of a built withdrawal satisfy the chain of the circuit exactly if every withdrawal leaves
something of its asset and the padding, if there is any, finds a free leaf, up to collisions of the
trees in question. -/
theorem withdrawal_provable_iff (perm : State → State) {accin : StandardAccount} {wAccAddr : H160}
    {ws : List (F × U256)} {b₀ b : WithdrawRealTxBuilder} {tx : BuiltWithdrawRealTx}
    (hast : accin.ast.Reachable perm) (hnew : WithdrawRealTxBuilder.new accin wAccAddr = .ok b₀)
    (hadd : b₀.addWithdrawals ws = .ok b) (hbuild : b.build perm = .ok tx) :
    Provable perm tx.accin tx.withdrawals ↔
      (∀ k w, ws[k]? = some w → Remains accin.ast ws k w.1 ∨ LeafClash perm accin.ast ws k w.1) ∧
        (ws.length = NOTE_BATCH ∨ accin.ast.tree.numLeaves < 2 ^ ACC_AST_DEPTH ∨
          EmptyClash perm accin.ast ws) := by
  obtain ⟨-, rfl⟩ := new_eq_ok hnew
  obtain ⟨haccin, hlist, hlen⟩ := addWithdrawals_eq_ok hadd (Nat.zero_le _)
  obtain ⟨htx, hws, slots, hslots⟩ := build_eq_ok hbuild
  rw [List.nil_append] at hlist
  rw [hlist] at hlen
  rw [hlist, haccin] at hslots
  rw [htx, hws, hlist, haccin]
  have hm := hast.mirrors
  obtain ⟨-, hopened, -⟩ := computeWithdrawalSlots_eq_ok hm hslots
  obtain ⟨ds, hds⟩ := hm
  have hroom : accin.ast.tree.numLeaves ≤ 2 ^ ACC_AST_DEPTH := by
    rw [hds.numLeaves]
    exact hds.room
  rw [provable_iff ⟨ds, hds⟩ hslots]
  exact slots_iff hroom hlen hopened

/-- Three of five units of an asset. -/
theorem withdrawal_provable_part : ∃ acc b₀ b tx, acc.ast.Reachable poseidon ∧
    WithdrawRealTxBuilder.new acc 0 = .ok b₀ ∧
    b₀.addWithdrawals [(1, BitVec.ofNat 256 3)] = .ok b ∧ b.build poseidon = .ok tx ∧
    Provable poseidon tx.accin tx.withdrawals := by
  obtain ⟨acc, hacc⟩ := exists_funded poseidon one_ne_zero (BitVec.ofNat 256 5)
  obtain ⟨b₀, b, tx, hnew, hadd, hbuild⟩ := hacc.build_ok one_ne_zero
    (show (BitVec.ofNat 256 3).toNat ≤ (BitVec.ofNat 256 5).toNat by decide)
  refine ⟨acc, b₀, b, tx, hacc.reachable, hnew, hadd, hbuild, ?_⟩
  refine (withdrawal_provable_iff poseidon hacc.reachable hnew hadd hbuild).mpr
    ⟨fun k w hw => .inl ?_, .inr (.inl ?_)⟩
  · obtain ⟨rfl, rfl⟩ : k = 0 ∧ w = (1, BitVec.ofNat 256 3) := by
      cases k with
      | zero => exact ⟨rfl, (Option.some.inj hw).symm⟩
      | succ k => cases hw
    rw [Remains, hacc.balance]
    decide
  · rw [hacc.mirrors.numLeaves]
    exact (show 2 < 2 ^ ACC_AST_DEPTH by decide)

/-- All five units of an asset: the withdrawal is built, and its slots do not satisfy the chain. -/
theorem full_withdrawal_not_provable : ∃ acc b₀ b tx, acc.ast.Reachable poseidon ∧
    acc.ast.balance 1 = BitVec.ofNat 256 5 ∧
    WithdrawRealTxBuilder.new acc 0 = .ok b₀ ∧
    b₀.addWithdrawals [(1, BitVec.ofNat 256 5)] = .ok b ∧ b.build poseidon = .ok tx ∧
    ¬ Provable poseidon tx.accin tx.withdrawals := by
  obtain ⟨acc, hacc⟩ := exists_funded poseidon one_ne_zero (BitVec.ofNat 256 5)
  obtain ⟨b₀, b, tx, hnew, hadd, hbuild⟩ := hacc.build_ok one_ne_zero
    (Nat.le_refl (BitVec.ofNat 256 5).toNat)
  refine ⟨acc, b₀, b, tx, hacc.reachable, hacc.balance, hnew, hadd, hbuild, fun hprovable => ?_⟩
  obtain ⟨htx, hws, slots, hslots⟩ := build_eq_ok hbuild
  obtain ⟨-, rfl⟩ := new_eq_ok hnew
  obtain ⟨haccin, hlist, -⟩ := addWithdrawals_eq_ok hadd (Nat.zero_le _)
  rw [List.nil_append] at hlist
  rw [htx, hws, hlist, haccin] at hprovable
  rw [hlist, haccin] at hslots
  have hm : ∃ ds, Mirrors poseidon acc.ast ds := ⟨_, hacc.mirrors⟩
  obtain ⟨-, hopened, -⟩ := computeWithdrawalSlots_eq_ok hm hslots
  have hcount : acc.ast.tree.numLeaves ≤ 2 ^ ACC_AST_DEPTH := by
    rw [hacc.mirrors.numLeaves]
    exact (show 2 ≤ 2 ^ ACC_AST_DEPTH by decide)
  have hmeets := ((provable_iff hm hslots).mp hprovable 0 (by decide)).2
  rcases (rootOut_withdrawal rfl (hopened 0 (by decide) _ rfl) hcount).mp hmeets with hremains | hclash
  · rw [Remains, hacc.balance] at hremains
    exact absurd hremains (by decide)
  · have hroot := hclash.1
    have hleft : leftAfter acc.ast [(1, BitVec.ofNat 256 5)] 1 1 = 0 := by
      rw [leftAfter, hacc.balance]
      decide
    rw [leavesAfter_withdrawal (w := (1, BitVec.ofNat 256 5)) rfl, hleft, leavesAfter, hacc.leaves,
      hacc.leafIndex, emptied_claimed] at hroot
    exact emptied_root_ne (hroot.symm.trans newLeaves_root)

end Doxa.Client.Withdraw
