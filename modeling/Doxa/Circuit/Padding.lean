import Doxa.Circuit.Aggregator
import Doxa.Circuit.Published

/-!
# Padding slots

A padding slot (`notFakeTx = 0`) switches off the membership and signature checks of its
transaction, but its output commitments are leaves of the batch like all others. A leaf
carries value when its preimage is an account whose asset tree opens to a nonzero amount or
a note of nonzero amount. The leaves of the padding slots carry no value exactly when the
output accounts of these slots hold no balance, and nothing in the circuits asks for that:
`conjure` puts an account of ten units into the batch.
-/

namespace Doxa.Circuit

open Lib

variable (perm : State → State)

/-! ## Leaves that carry value -/

/-- A path of the asset tree opens a nonzero amount. -/
def AccountTarget.HoldsBalance (acc : AccountTarget) : Prop :=
  ∃ (assetId : F) (amt : U256Target) (path : MerkleRootTarget ACC_AST_DEPTH),
    amt.value ≠ 0 ∧ path.Satisfied ∧ path.root perm (astLeaf perm assetId amt) = acc.accAstRoot

/-- The preimage is that of an account with a balance or of a note with an amount. -/
def CarriesValue (preimage : List F) : Prop :=
  (∃ acc : AccountTarget, acc.preimage = preimage ∧ acc.HoldsBalance perm) ∨
    ∃ note : StandardNoteTarget, note.preimage = preimage ∧ note.amount.value ≠ 0

/-- No commitment with value has the digest of `preimage`, up to a collision. -/
def CannotMint (preimage : List F) : Prop :=
  ∀ valued, CarriesValue perm valued → hashNoPad perm valued = hashNoPad perm preimage →
    Collision perm valued preimage

theorem cannotMint_iff (preimage : List F) :
    CannotMint perm preimage ↔ ¬ CarriesValue perm preimage := by
  constructor
  · intro h hvalue
    exact (h preimage hvalue rfl).1 rfl
  · intro hvalue valued hvalued heq
    refine ⟨?_, heq⟩
    rintro rfl
    exact hvalue hvalued

variable {perm}

theorem carriesValue_account (acc : AccountTarget) :
    CarriesValue perm acc.preimage ↔ acc.HoldsBalance perm := by
  constructor
  · rintro (⟨acc', heq, hbalance⟩ | ⟨note, heq, -⟩)
    · exact AccountTarget.preimage_injective heq ▸ hbalance
    · have hlength := congrArg List.length heq
      rw [AccountTarget.preimage_length, StandardNoteTarget.preimage_length] at hlength
      omega
  · intro hbalance
    exact .inl ⟨acc, rfl, hbalance⟩

/-- The preimage of a dummy note is too short to carry value. -/
theorem not_carriesValue_of_length {preimage : List F} (h : preimage.length = 4) :
    ¬ CarriesValue perm preimage := by
  rintro (⟨acc, rfl, -⟩ | ⟨note, rfl, -⟩)
  · rw [AccountTarget.preimage_length] at h
    omega
  · rw [StandardNoteTarget.preimage_length] at h
    omega

/-! ## Batches -/

/-- A batch as the state tree sees it: each leaf with its preimage and the flag of its slot. -/
structure Batch where
  sr : SubtreeRootTargets
  notFakeTx : Fin SUBTREE_BATCHSIZE → F
  preimage : Fin SUBTREE_BATCHSIZE → List F

namespace Batch

variable (perm) (b : Batch)

/-- The flags are boolean, the subtree circuit is satisfied and the leaves are digests. -/
structure Wf : Prop where
  flags : ∀ i, IsBool (b.notFakeTx i)
  sr : b.sr.Satisfied perm
  leaves : ∀ i, b.sr.leaves i = hashNoPad perm (b.preimage i)

/-- Padding cannot mint: no leaf of a padding slot has the digest of a commitment with
value, and a commitment with value that a path opens in the subtree belongs to a real slot,
each up to a collision at hand. -/
structure PaddingCannotMint : Prop where
  leaves : ∀ i, b.notFakeTx i = 0 → CannotMint perm (b.preimage i)
  openings : ∀ (path : MerkleRootTarget SUBTREE_DEPTH) (i : Fin SUBTREE_BATCHSIZE)
    (valued : List F), path.Satisfied → path.position = i → CarriesValue perm valued →
    path.root perm (hashNoPad perm valued) = b.sr.root →
    b.notFakeTx i = 1 ∨ Collision perm valued (b.preimage i) ∨
      ∃ l < SUBTREE_DEPTH,
        PathCollision (nodeHash perm) b.sr.leaf path.sibling (hashNoPad perm valued) i l

variable {perm b}

theorem Wf.opening (h : b.Wf perm) {path : MerkleRootTarget SUBTREE_DEPTH}
    {i : Fin SUBTREE_BATCHSIZE} {leaf : HashOut} (hpath : path.Satisfied)
    (hposition : path.position = i) (hroot : path.root perm leaf = b.sr.root) :
    leaf = hashNoPad perm (b.preimage i) ∨
      ∃ l < SUBTREE_DEPTH, PathCollision (nodeHash perm) b.sr.leaf path.sibling leaf i l := by
  have hclimb : climb (nodeHash perm) path.sibling i.val.testBit leaf SUBTREE_DEPTH =
      node (nodeHash perm) b.sr.leaf SUBTREE_DEPTH (i / 2 ^ SUBTREE_DEPTH) := by
    have hzero : i.val / 2 ^ SUBTREE_DEPTH = 0 := Nat.div_eq_of_lt i.isLt
    rw [hzero, ← h.sr.root_eq, ← hroot, MerkleRootTarget.root_eq_climb hpath, hposition]
  have hleaf : b.sr.leaf i = hashNoPad perm (b.preimage i) := by
    rw [← h.leaves, SubtreeRootTargets.leaf_val]
  rw [← hleaf]
  exact (isPath_of_climb hclimb).imp_left And.left

/-- Padding cannot mint exactly when no padding leaf carries value. -/
theorem Wf.paddingCannotMint_iff (h : b.Wf perm) :
    b.PaddingCannotMint perm ↔ ∀ i, b.notFakeTx i = 0 → ¬ CarriesValue perm (b.preimage i) := by
  constructor
  · intro hmint i hi
    exact (cannotMint_iff perm _).mp (hmint.leaves i hi)
  · intro hclean
    refine ⟨fun i hi => (cannotMint_iff perm _).mpr (hclean i hi), ?_⟩
    intro path i valued hpath hposition hvalued hroot
    rcases isBool_iff.mp (h.flags i) with hi | hi
    · rcases h.opening hpath hposition hroot with heq | hcol
      · exact .inr (.inl ((cannotMint_iff perm _).mpr (hclean i hi) valued hvalued heq))
      · exact .inr (.inr hcol)
    · exact .inl hi

end Batch

/-! ## Private transactions -/

/-- What output `j` of a private transaction hashes. -/
def TxCircuitTargets.outputPreimage (perm : State → State) (t : TxCircuitTargets)
    (j : Fin (1 + NOTE_BATCH)) : List F :=
  if h : 0 < j.val then t.donotePreimage perm (noteIndex j h) else t.accout.preimage

theorem TxCircuitTargets.outputCommitments_eq (t : TxCircuitTargets) (j : Fin (1 + NOTE_BATCH)) :
    (t.publicTargets perm).outputCommitments j = hashNoPad perm (t.outputPreimage perm j) := by
  unfold TxCircuitPublicTargets.outputCommitments TxCircuitTargets.outputPreimage
  split <;> rfl

namespace PrivTxSuperTargets

variable (perm) (t : PrivTxSuperTargets)

def slotOf (i : Fin SUBTREE_BATCHSIZE) : Fin PRIV_TX_BATCH_SIZE :=
  ⟨i.val / (1 + NOTE_BATCH), Nat.div_lt_of_lt_mul i.isLt⟩

def outputOf (i : Fin SUBTREE_BATCHSIZE) : Fin (1 + NOTE_BATCH) :=
  ⟨i.val % (1 + NOTE_BATCH), Nat.mod_lt _ (by decide)⟩

theorem leafIndex_slotOf (i : Fin SUBTREE_BATCHSIZE) : leafIndex (slotOf i) (outputOf i) = i :=
  Fin.ext (Nat.div_add_mod' i.val (1 + NOTE_BATCH))

theorem slotOf_leafIndex (s : Fin PRIV_TX_BATCH_SIZE) (j : Fin (1 + NOTE_BATCH)) :
    slotOf (leafIndex s j) = s ∧ outputOf (leafIndex s j) = j := by
  have hj : j.val < 8 := j.isLt
  constructor
  · apply Fin.ext
    change (s.val * 8 + j.val) / 8 = s.val
    omega
  · apply Fin.ext
    change (s.val * 8 + j.val) % 8 = j.val
    omega

def batch : Batch where
  sr := t.sr
  notFakeTx := fun i => (t.slots (slotOf i)).notFakeTx
  preimage := fun i => (t.slots (slotOf i)).outputPreimage perm (outputOf i)

variable {perm t}

theorem Satisfied.wf (h : t.Satisfied perm) : (t.batch perm).Wf perm where
  flags := fun i => (h.tx (slotOf i)).allocated.not_fake_tx
  sr := h.sr
  leaves := by
    intro i
    have hleaf := h.leaves (slotOf i) (outputOf i)
    rw [leafIndex_slotOf] at hleaf
    exact hleaf.symm.trans (TxCircuitTargets.outputCommitments_eq _ _)

theorem outputPreimage_cases (t : TxCircuitTargets) (j : Fin (1 + NOTE_BATCH)) :
    CarriesValue perm (t.outputPreimage perm j) ↔ j = 0 ∧ t.accout.HoldsBalance perm := by
  unfold TxCircuitTargets.outputPreimage
  split
  · rename_i hj
    refine iff_of_false (not_carriesValue_of_length ?_) fun hzero => ?_
    · exact List.length_ofFn
    · exact hj.ne' (congrArg Fin.val hzero.1)
  · rename_i hj
    have hzero : j = 0 := Fin.ext (Nat.eq_zero_of_not_pos hj)
    rw [carriesValue_account]
    exact ⟨fun hbalance => ⟨hzero, hbalance⟩, And.right⟩

theorem Satisfied.paddingCannotMint_iff (h : t.Satisfied perm) :
    (t.batch perm).PaddingCannotMint perm ↔
      ∀ s, (t.slots s).notFakeTx = 0 → ¬ (t.slots s).accout.HoldsBalance perm := by
  rw [h.wf.paddingCannotMint_iff]
  constructor
  · intro hclean s hs hbalance
    have hi := hclean (leafIndex s 0)
    simp only [batch, (slotOf_leafIndex s 0).1, (slotOf_leafIndex s 0).2] at hi
    exact hi hs ((outputPreimage_cases _ 0).mpr ⟨rfl, hbalance⟩)
  · intro hclean i hi hvalue
    exact hclean (slotOf i) hi ((outputPreimage_cases _ _).mp hvalue).2

end PrivTxSuperTargets

/-! ## Bridge transactions -/

namespace BridgeTxSuperTargets

variable (t : BridgeTxSuperTargets)

/-- Both halves of the leaves. -/
def onHalves {α : Type*} (w d : Fin HALF → α) (i : Fin SUBTREE_BATCHSIZE) : α :=
  if h : i.val < HALF then w ⟨i.val, h⟩
  else d ⟨i.val - HALF, Nat.sub_lt_left_of_lt_add (Nat.le_of_not_lt h) i.isLt⟩

def batch : Batch where
  sr := t.sr
  notFakeTx := onHalves (fun s => (t.pairs s).w.notFakeTx) fun s => (t.pairs s).d.notFakeTx
  preimage := onHalves (fun s => (t.pairs s).w.accout.preimage)
    fun s => (t.pairs s).d.accout.preimage

variable {t}

theorem onHalves_withdraw {α : Type*} (w d : Fin HALF → α) (s : Fin HALF) :
    onHalves w d (withdrawIndex s) = w s := dif_pos s.isLt

theorem onHalves_deposit {α : Type*} (w d : Fin HALF → α) (s : Fin HALF) :
    onHalves w d (depositIndex s) = d s := by
  have hindex : HALF + s.val - HALF = s.val := Nat.add_sub_cancel_left HALF s.val
  have hnot : ¬ (depositIndex s).val < HALF := Nat.not_lt_of_le (Nat.le_add_right HALF s.val)
  unfold onHalves
  rw [dif_neg hnot]
  exact congrArg d (Fin.ext hindex)

/-- Every leaf is that of a withdrawal or of a deposit. -/
theorem forall_halves {p : Fin SUBTREE_BATCHSIZE → Prop} :
    (∀ i, p i) ↔ ∀ s, p (withdrawIndex s) ∧ p (depositIndex s) := by
  constructor
  · intro h s
    exact ⟨h _, h _⟩
  · intro h i
    by_cases hi : i.val < HALF
    · exact (h ⟨i.val, hi⟩).1
    · have hsub : i.val - HALF < HALF := Nat.sub_lt_left_of_lt_add (Nat.le_of_not_lt hi) i.isLt
      have hindex : depositIndex ⟨i.val - HALF, hsub⟩ = i :=
        Fin.ext (Nat.add_sub_of_le (Nat.le_of_not_lt hi))
      exact hindex ▸ (h ⟨i.val - HALF, hsub⟩).2

theorem Satisfied.wf (h : t.Satisfied perm) : t.batch.Wf perm where
  flags := by
    rw [forall_halves]
    intro s
    simp only [batch, onHalves_withdraw, onHalves_deposit]
    exact ⟨(h.pair s).withdraw.allocated.not_fake_tx, (h.pair s).deposit.allocated.not_fake_tx⟩
  sr := h.sr
  leaves := by
    rw [forall_halves]
    intro s
    simp only [batch, onHalves_withdraw, onHalves_deposit]
    exact ⟨(h.w_leaves s).symm, (h.d_leaves s).symm⟩

theorem Satisfied.paddingCannotMint_iff (h : t.Satisfied perm) :
    t.batch.PaddingCannotMint perm ↔ ∀ s,
      ((t.pairs s).w.notFakeTx = 0 → ¬ (t.pairs s).w.accout.HoldsBalance perm) ∧
      ((t.pairs s).d.notFakeTx = 0 → ¬ (t.pairs s).d.accout.HoldsBalance perm) := by
  rw [h.wf.paddingCannotMint_iff, forall_halves]
  simp only [batch, onHalves_withdraw, onHalves_deposit, carriesValue_account]

end BridgeTxSuperTargets

/-- The output account of an asset update holds the amount the circuit was given. -/
theorem AssertAstUpdate.holdsBalance {path : MerkleRootTarget ACC_AST_DEPTH} {assetId : F}
    {accinAmt accoutAmt : U256Target} {accinAstRoot : HashOut} {accout : AccountTarget}
    {existsIn existsOut : F}
    (h : AssertAstUpdate perm path assetId accinAmt accoutAmt accinAstRoot accout.accAstRoot
      existsIn existsOut)
    (hexists : existsOut = 1) (hvalue : accoutAmt.value ≠ 0) : accout.HoldsBalance perm := by
  refine ⟨assetId, accoutAmt, path, hvalue, h.accout.path, ?_⟩
  have hroot := h.accout.root
  rw [hexists, existsOrDefault, ifElseHash_one] at hroot
  exact hroot

variable (perm)

/-- The batch with one private transaction in every slot. -/
def PrivTxSuperTargets.uniform (t : TxCircuitTargets) : PrivTxSuperTargets where
  slots := fun _ => t
  sr := {
    root := merkleRoot perm (List.ofFn fun i =>
      (t.publicTargets perm).outputCommitments (PrivTxSuperTargets.outputOf i))
    leaves := fun i => (t.publicTargets perm).outputCommitments (PrivTxSuperTargets.outputOf i) }

/-- The batch with one withdrawal and one deposit in every pair. -/
def BridgeTxSuperTargets.uniform (p : BridgeTxPairTargets) : BridgeTxSuperTargets where
  pairs := fun _ => p
  sr := {
    root := merkleRoot perm (List.ofFn (BridgeTxSuperTargets.onHalves
      (fun _ => p.w.accoutComm perm) fun _ => p.d.accoutComm perm))
    leaves := BridgeTxSuperTargets.onHalves (fun _ => p.w.accoutComm perm) fun _ =>
      p.d.accoutComm perm }

variable {perm}

theorem TxCircuitTargets.Satisfied.uniform {t : TxCircuitTargets} (h : t.Satisfied perm) :
    (PrivTxSuperTargets.uniform perm t).Satisfied perm where
  tx := fun _ => h
  sr := rfl
  leaves := by
    intro s j
    simp only [PrivTxSuperTargets.uniform, (PrivTxSuperTargets.slotOf_leafIndex s j).2]
    rfl
  state_root := fun _ => rfl
  mainpool_config_root := fun _ => rfl

theorem BridgeTxPairTargets.Satisfied.uniform {p : BridgeTxPairTargets} (h : p.Satisfied perm) :
    (BridgeTxSuperTargets.uniform perm p).Satisfied perm where
  pair := fun _ => h
  sr := rfl
  w_leaves := fun s => (BridgeTxSuperTargets.onHalves_withdraw (fun _ => p.w.accoutComm perm)
    (fun _ => p.d.accoutComm perm) s).symm
  d_leaves := fun s => (BridgeTxSuperTargets.onHalves_deposit (fun _ => p.w.accoutComm perm)
    (fun _ => p.d.accoutComm perm) s).symm
  act_root := fun _ => rfl
  mainpool_config_root := fun _ => rfl

/-! ## Conjured balances -/

/-- An account with ten units that takes no note and makes none. -/
def conjure : Transfer where
  notFakeTx := 0
  assetId := 9
  accinAmt := ![10, 0, 0, 0, 0, 0, 0, 0]
  assetExistsInAccin := 1
  accoutAmt := ![10, 0, 0, 0, 0, 0, 0, 0]
  assetExistsInAccout := 1
  inoteAmt := 0
  inoteActive := 0
  inotePos := 0
  onoteAmt := 0
  onoteActive := 0
  donote := 0
  lhs := { result := ![10, 0, 0, 0, 0, 0, 0, 0], carryOut := 0
           bytes := fun k j => if k = 0 ∧ j = 0 then 10 else 0 }
  rhs := { result := ![10, 0, 0, 0, 0, 0, 0, 0], carryOut := 0
           bytes := fun k j => if k = 0 ∧ j = 0 then 10 else 0 }

theorem conjure_valid : conjure.Valid where
  not_fake_tx := isBool_iff.mpr (.inl rfl)
  exists_accin := isBool_iff.mpr (.inr rfl)
  exists_accout := isBool_iff.mpr (.inr rfl)
  inote_active := isBool_iff.mpr (.inl rfl)
  onote_active := isBool_iff.mpr (.inl rfl)
  absent_accin := by decide +kernel
  absent_accout := by decide +kernel
  lhs := { range := by decide +kernel, limb := by decide +kernel }
  rhs := { range := by decide +kernel, limb := by decide +kernel }
  equal := rfl

/-- The padding transaction under any roots: its account need not be in any tree. -/
def conjured (perm : State → State) (stateRoot mainpoolConfigRoot : HashOut) : TxCircuitTargets :=
  (conjure.targets perm).rewire perm (fun _ => 0) stateRoot mainpoolConfigRoot

theorem conjured_satisfied (stateRoot mainpoolConfigRoot : HashOut) :
    (conjured perm stateRoot mainpoolConfigRoot).Satisfied perm := by
  refine (conjure_valid.satisfied perm).rewire (fun _ => 0) ⟨firstLeafPath_satisfied _ _, ?_⟩
    (fun i => ⟨secondLeafPath_satisfied _ _, ?_⟩) ⟨MerkleRootTarget.zero_satisfied _, ?_⟩
  · change CondHashEq ((1 - 0) * 0) _ _
    rw [mul_zero]
    exact condHashEq_zero _ _
  · have hinactive : (conjure.targets perm).inotesIsactive i = 0 :=
      Transfer.inFirst_all (· = 0) rfl rfl i
    rw [hinactive]
    exact condHashEq_zero _ _
  · exact condHashEq_zero _ _

/-- The deposit with forged signatures. -/
def DepositTxTargets.fillSignatures (perm : State → State) (t : DepositTxTargets) :
    DepositTxTargets :=
  { t with
    consume := forgedTargets perm (t.txHash perm) t.accin.consumeAuth.pk
    approval := forgedTargets perm (t.txHash perm) t.approvalKey }

theorem DepositTxTargets.fillSignatures_consume (t : DepositTxTargets) (applyCheck : F) :
    (t.fillSignatures perm).consume.Satisfied perm ((t.fillSignatures perm).txHash perm)
      t.accin.consumeAuth.pk applyCheck :=
  forgedTargets_satisfied _ _ _ _

theorem DepositTxTargets.fillSignatures_approval (t : DepositTxTargets) (applyCheck : F) :
    (t.fillSignatures perm).approval.Satisfied perm ((t.fillSignatures perm).txHash perm)
      t.approvalKey applyCheck :=
  forgedTargets_satisfied _ _ _ _

/-- The withdrawal with forged signatures. -/
def WithdrawTxTargets.fillSignatures (perm : State → State) (t : WithdrawTxTargets) :
    WithdrawTxTargets :=
  { t with
    approval := forgedTargets perm (t.txHash perm) t.approvalKey
    spend := forgedTargets perm (t.txHash perm) t.accin.spendAuth }

theorem WithdrawTxTargets.fillSignatures_approval (t : WithdrawTxTargets) (applyCheck : F) :
    (t.fillSignatures perm).approval.Satisfied perm ((t.fillSignatures perm).txHash perm)
      t.approvalKey applyCheck :=
  forgedTargets_satisfied _ _ _ _

theorem WithdrawTxTargets.fillSignatures_spend (t : WithdrawTxTargets) (applyCheck : F) :
    (t.fillSignatures perm).spend.Satisfied perm ((t.fillSignatures perm).txHash perm)
      t.accin.spendAuth applyCheck :=
  forgedTargets_satisfied _ _ _ _

/-- The roots a bridge pair names: any roots in a padding slot, else those of a tree that
holds the account. -/
structure BridgeRoots where
  notFakeTx : F
  stateRoot : HashOut
  mainpoolConfigRoot : HashOut

namespace BridgeRoots

variable (perm) (r : BridgeRoots)

/-- The account before the deposit and before the withdrawal has an empty asset tree. -/
def accin : AccountTarget :=
  Transfer.account 5 ((MerkleRootTarget.zero ACC_AST_DEPTH).root perm AST_DEFAULT_LEAF)

structure Valid : Prop where
  not_fake_tx : IsBool r.notFakeTx
  act : (MerkleRootTarget.zero STATE_TREE_DEPTH).ConditionalVerify perm
    (deriveAccountCommitment perm (accin perm)) r.stateRoot r.notFakeTx
  subpool : AssertSubpoolFullProof perm (MerkleRootTarget.zero MAIN_POOL_CONFIG_DEPTH) 1
    DEFAULT_SPEND_AUTH_PK r.mainpoolConfigRoot r.notFakeTx

/-- Seven units. -/
def amount : U256Target := ![7, 0, 0, 0, 0, 0, 0, 0]

/-- The sum of the deposit. -/
def sum : U256AdditionChain :=
  { result := amount, carryOut := 0, bytes := fun k j => if k = 0 ∧ j = 0 then 7 else 0 }

theorem sum_satisfied : sum.Satisfied 0 ![amount] where
  range := by decide +kernel
  limb := by decide +kernel

/-- The empty sum. -/
def zeroSum : U256AdditionChain := { result := 0, carryOut := 0, bytes := 0 }

theorem zeroSum_satisfied : zeroSum.Satisfied 0 ![0] where
  range := by decide +kernel
  limb := by decide +kernel

/-- A deposit of seven units. -/
def unsignedDeposit : DepositTxTargets where
  notFakeTx := r.notFakeTx
  approvalKey := DEFAULT_SPEND_AUTH_PK
  stateRoot := r.stateRoot
  mainpoolConfigRoot := r.mainpoolConfigRoot
  accin := accin perm
  accout := Transfer.account (5 + 1) ((MerkleRootTarget.zero ACC_AST_DEPTH).root perm
    (astLeaf perm 9 amount))
  assetId := 9
  accinAmt := 0
  accoutAmt := amount
  assetExistsInAccin := 0
  assetExistsInAccout := 1
  depositNote := {
    identifier := ![3, 4]
    recipientSubpoolId := 1
    recipientPublicId := derivePublicIdentifier perm ![1, 2]
    amount := amount
    assetId := 9 }
  ethAddress := 0
  accinActMerkle := MerkleRootTarget.zero STATE_TREE_DEPTH
  accinAstMerkle := MerkleRootTarget.zero ACC_AST_DEPTH
  sum := sum
  mainPoolProof := MerkleRootTarget.zero MAIN_POOL_CONFIG_DEPTH
  consume := forgedTargets perm 0 DEFAULT_SPEND_AUTH_PK
  approval := forgedTargets perm 0 DEFAULT_SPEND_AUTH_PK

def deposit : DepositTxTargets := (unsignedDeposit perm r).fillSignatures perm

/-- A withdrawal of nothing. -/
def unsignedWithdraw : WithdrawTxTargets where
  notFakeTx := r.notFakeTx
  approvalKey := DEFAULT_SPEND_AUTH_PK
  root := r.stateRoot
  mainpoolConfigRoot := r.mainpoolConfigRoot
  accin := accin perm
  accout := { accin perm with nonce := 5 + 1 }
  assetIds := 0
  withdrawalAmts := 0
  accinAmts := 0
  accoutAmts := 0
  assetExistsInAccin := 0
  assetExistsInAccout := 0
  wAccAddr := 0
  accinActMerkle := MerkleRootTarget.zero STATE_TREE_DEPTH
  intermediateRoots := fun _ => (MerkleRootTarget.zero ACC_AST_DEPTH).root perm AST_DEFAULT_LEAF
  rhs := fun _ => zeroSum
  astMerkles := fun _ => MerkleRootTarget.zero ACC_AST_DEPTH
  mainPoolProof := MerkleRootTarget.zero MAIN_POOL_CONFIG_DEPTH
  approval := forgedTargets perm 0 DEFAULT_SPEND_AUTH_PK
  spend := forgedTargets perm 0 DEFAULT_SPEND_AUTH_PK

def withdraw : WithdrawTxTargets := (unsignedWithdraw perm r).fillSignatures perm

def pair : BridgeTxPairTargets := { w := withdraw perm r, d := deposit perm r }

/-- What a deposit into the empty account names. -/
structure DepositData where
  assetId : F
  amount : U256Target
  sum : U256AdditionChain
  ethAddress : Fin 5 → F

def unsignedDepositOf (x : DepositData) : DepositTxTargets :=
  { unsignedDeposit perm r with
    accout := Transfer.account (5 + 1) ((MerkleRootTarget.zero ACC_AST_DEPTH).root perm
      (astLeaf perm x.assetId x.sum.result))
    assetId := x.assetId
    accoutAmt := x.sum.result
    depositNote := { (unsignedDeposit perm r).depositNote with
      amount := x.amount
      assetId := x.assetId }
    ethAddress := x.ethAddress
    sum := x.sum }

/-- The deposit of `x`. -/
def depositOf (x : DepositData) : DepositTxTargets := (unsignedDepositOf perm r x).fillSignatures perm

/-- What a withdrawal from the empty account names. -/
structure WithdrawData where
  assetIds : Fin NOTE_BATCH → F
  amounts : Fin NOTE_BATCH → U256Target
  rhs : Fin NOTE_BATCH → U256AdditionChain
  wAccAddr : Fin 5 → F

def unsignedWithdrawOf (x : WithdrawData) : WithdrawTxTargets :=
  { unsignedWithdraw perm r with
    assetIds := x.assetIds
    withdrawalAmts := x.amounts
    rhs := x.rhs
    wAccAddr := x.wAccAddr }

/-- The withdrawal of `x`. -/
def withdrawOf (x : WithdrawData) : WithdrawTxTargets :=
  (unsignedWithdrawOf perm r x).fillSignatures perm


variable {perm r}

theorem emptyLeaf (assetId : F) : existsOrDefault perm assetId 0 0 = AST_DEFAULT_LEAF :=
  ifElseHash_zero _ _

/-- The zero path leads from the default leaf to the root of the empty tree. -/
theorem empty_ast (assetId : F) :
    AssertAssetAmtOrDefaultInAst perm (MerkleRootTarget.zero ACC_AST_DEPTH) assetId 0
      ((MerkleRootTarget.zero ACC_AST_DEPTH).root perm AST_DEFAULT_LEAF) 0 where
  path := MerkleRootTarget.zero_satisfied _
  root := by rw [emptyLeaf]
  absent := fun _ => condEq_self _ _

theorem Valid.depositOf_satisfied (h : r.Valid perm) {x : DepositData}
    (hsum : x.sum.Satisfied 0 ![x.amount]) : (depositOf perm r x).Satisfied perm where
  allocated := {
    not_fake_tx := h.not_fake_tx
    accin := isBool_iff.mpr (.inl rfl)
    accout := isBool_iff.mpr (.inl rfl)
    asset_exists_in_accin := isBool_iff.mpr (.inl rfl)
    asset_exists_in_accout := isBool_iff.mpr (.inr rfl) }
  asset_id := rfl
  act := h.act
  recipient_subpool := rfl
  recipient := rfl
  invariants := {
    private_identifier := Eq.trans (b := ![1, 2]) rfl rfl
    subpool_id := Eq.trans (b := 1) rfl rfl
    nonce := rfl
    spend_auth := Eq.trans (b := DEFAULT_SPEND_AUTH_PK) rfl rfl
    consume_pk := Eq.trans (b := DEFAULT_ACC_COMM_CONSUME_PK_PLACEHOLDER) rfl rfl
    consume_config := Eq.trans (b := 0) rfl rfl }
  ast := {
    accin := empty_ast x.assetId
    accout := {
      path := MerkleRootTarget.zero_satisfied _
      root := by
        change (MerkleRootTarget.zero ACC_AST_DEPTH).root perm
          (ifElseHash 1 (astLeaf perm x.assetId x.sum.result) AST_DEFAULT_LEAF) = _
        rw [ifElseHash_one]
        rfl
      absent := by
        intro i
        change CondEq (1 - 1) _ _
        rw [sub_self]
        exact condEq_zero _ _ } }
  sum := hsum
  balance := Eq.trans (b := x.sum.result) rfl rfl
  subpool := h.subpool
  consume := (unsignedDepositOf perm r x).fillSignatures_consume _
  approval := (unsignedDepositOf perm r x).fillSignatures_approval _

theorem Valid.deposit_satisfied (h : r.Valid perm) : (deposit perm r).Satisfied perm :=
  h.depositOf_satisfied (x := ⟨9, amount, sum, 0⟩) sum_satisfied

/-- No slot changes the empty tree. -/
theorem withdraw_roots (x : WithdrawData) (i : Fin NOTE_BATCH) :
    (withdrawOf perm r x).prevRoot i =
        (MerkleRootTarget.zero ACC_AST_DEPTH).root perm AST_DEFAULT_LEAF ∧
      (withdrawOf perm r x).currRoot i =
        (MerkleRootTarget.zero ACC_AST_DEPTH).root perm AST_DEFAULT_LEAF := by
  constructor
  · unfold WithdrawTxTargets.prevRoot
    split <;> rfl
  · unfold WithdrawTxTargets.currRoot
    split <;> rfl

theorem Valid.withdrawOf_satisfied (h : r.Valid perm) {x : WithdrawData}
    (hsum : ∀ i, (x.rhs i).Satisfied 0 ![x.amounts i]) (hresult : ∀ i, (x.rhs i).result = 0) :
    (withdrawOf perm r x).Satisfied perm where
  allocated := {
    not_fake_tx := h.not_fake_tx
    accin := isBool_iff.mpr (.inl rfl)
    accout := isBool_iff.mpr (.inl rfl)
    asset_exists_in_accin := fun _ => isBool_iff.mpr (.inl rfl)
    asset_exists_in_accout := fun _ => isBool_iff.mpr (.inl rfl) }
  act := h.act
  invariants := {
    private_identifier := Eq.trans (b := ![1, 2]) rfl rfl
    subpool_id := Eq.trans (b := 1) rfl rfl
    nonce := rfl
    spend_auth := Eq.trans (b := DEFAULT_SPEND_AUTH_PK) rfl rfl
    consume_pk := Eq.trans (b := DEFAULT_ACC_COMM_CONSUME_PK_PLACEHOLDER) rfl rfl
    consume_config := Eq.trans (b := 0) rfl rfl }
  rhs := hsum
  balance := fun i => (hresult i).symm
  ast := by
    intro i
    rw [(withdraw_roots x i).1, (withdraw_roots x i).2]
    exact { accin := empty_ast (x.assetIds i), accout := empty_ast (x.assetIds i) }
  subpool := h.subpool
  approval := (unsignedWithdrawOf perm r x).fillSignatures_approval _
  spend := (unsignedWithdrawOf perm r x).fillSignatures_spend _

theorem Valid.withdraw_satisfied (h : r.Valid perm) : (withdraw perm r).Satisfied perm :=
  h.withdrawOf_satisfied (x := ⟨0, 0, fun _ => zeroSum, 0⟩) (fun _ => zeroSum_satisfied) fun _ => rfl

theorem Valid.pair_satisfied (h : r.Valid perm) : (pair perm r).Satisfied perm where
  withdraw := h.withdraw_satisfied
  deposit := h.deposit_satisfied
  root := rfl
  mainpool_config_root := rfl

/-- A padding pair under any roots. -/
def padding (stateRoot mainpoolConfigRoot : HashOut) : BridgeRoots where
  notFakeTx := 0
  stateRoot := stateRoot
  mainpoolConfigRoot := mainpoolConfigRoot

theorem padding_valid (stateRoot mainpoolConfigRoot : HashOut) :
    (padding stateRoot mainpoolConfigRoot).Valid perm where
  not_fake_tx := isBool_iff.mpr (.inl rfl)
  act := ⟨MerkleRootTarget.zero_satisfied _, condHashEq_zero _ _⟩
  subpool := ⟨MerkleRootTarget.zero_satisfied _, condHashEq_zero _ _⟩

variable (perm) in
/-- A real pair under the roots of trees with one leaf. -/
def real : BridgeRoots where
  notFakeTx := 1
  stateRoot := (MerkleRootTarget.zero STATE_TREE_DEPTH).root perm
    (deriveAccountCommitment perm (accin perm))
  mainpoolConfigRoot := (MerkleRootTarget.zero MAIN_POOL_CONFIG_DEPTH).root perm
    (mainPoolLeaf perm 1 DEFAULT_SPEND_AUTH_PK)

theorem real_valid : (real perm).Valid perm where
  not_fake_tx := isBool_iff.mpr (.inr rfl)
  act := MerkleRootTarget.verify_self perm (MerkleRootTarget.zero_satisfied _) _ _
  subpool := MerkleRootTarget.verify_self perm (MerkleRootTarget.zero_satisfied _) _ _

end BridgeRoots

end Doxa.Circuit
