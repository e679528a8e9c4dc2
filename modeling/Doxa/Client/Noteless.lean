import Doxa.Circuit.Soundness
import Doxa.Client.Freshness
import Doxa.Client.SpendSigning

/-!
# Transactions without notes

The transaction that opens an account and the one that pads a batch take no note and make none. All
slots hold dummies, the asset tree stays, and the default asset is opened with amount zero on both
sides. So the note, balance and asset-tree constraints hold by themselves, and what is left of the
circuit are the checks that a kind of transaction switches on (`Noteless.satisfied_iff`).
-/

namespace Doxa.Client

open Lib Circuit Trees
open AccountStateTree (Mirrors)
open Spend (TxSignatureTargets NotesTargets AstTargets boolTarget isBool_boolTarget merkleTarget
  merkleTarget_iff amountOrNext proveOrPanic_eq_ok)
open StateSync (pathTarget pathTarget_satisfied)

/-- The transaction has the seeds of all slots and no notes; of the account it changes the nonce and
the keys. -/
structure Noteless (tx : Spend.BuiltPrivTx) (dinotes donotes : Fin NOTE_BATCH → HashOut) : Prop where
  rejected : tx.rejectedInotes = []
  inotes : tx.inotes = []
  onotes : tx.onotes = []
  dinotes : tx.dinotes = List.ofFn dinotes
  donotes : tx.donotes = List.ofFn donotes
  account : ∃ spendAuth consumeAuth, tx.accout =
    { tx.accin.cloneWithIncrementedNonce with spendAuth := spendAuth, consumeAuth := consumeAuth }
  not_priv_tx : tx.txKindFlags.isPrivTx = false
  path : tx.accinMerkleProof.siblings.length = STATE_TREE_DEPTH

namespace Noteless

/-- `dummy_merkle_proof`. -/
def dummyMerkleProof (depth : ℕ) : MerkleProof HashOut where
  leaf := 0
  siblings := List.replicate depth 0
  path := List.replicate depth false
  pos := 0
  numLeaves := 0
  root := 0

/-! ## What is written -/

/-- The path targets of the subpool, and of the account. -/
def mainPath (tx : Spend.BuiltPrivTx) : MerkleRootTarget MAIN_POOL_CONFIG_DEPTH :=
  pathTarget MAIN_POOL_CONFIG_DEPTH tx.subpoolProof.mainPoolProof.siblings
    tx.subpoolProof.mainPoolProof.path

def actPath (tx : Spend.BuiltPrivTx) : MerkleRootTarget STATE_TREE_DEPTH :=
  pathTarget STATE_TREE_DEPTH tx.accinMerkleProof.siblings tx.accinMerkleProof.path

/-- The targets of the slots. -/
def notesTargets (perm : State → State) (accin : AccountTarget)
    (dinotes donotes : Fin NOTE_BATCH → HashOut) : NotesTargets where
  inotes := fun i => {
    note := Spend.dummyInote perm accin 0
    pos := 0
    isactive := 0
    dinote := dinotes i
    nctMerkle := .zero STATE_TREE_DEPTH }
  onotes := fun i => { note := Spend.dummyOnote 0, isactive := 0, donote := donotes i }
  isNotePairRjct := fun _ => boolTarget false

/-- The slots that are hashed. -/
def slots (accin accout : StandardAccount) (dinotes donotes : Fin NOTE_BATCH → HashOut) :
    Client.BuiltPrivTx where
  accin := accin
  accout := accout
  inotes := fun i => .dummy (dinotes i)
  onotes := fun i => .dummy (donotes i)

/-- The spend of the same accounts with no notes. -/
def noNotes (tx : Spend.BuiltPrivTx) : Spend.BuiltSpendTx where
  accin := tx.accin
  accout := tx.accout
  rejectedInotes := []
  inotes := []
  onotes := []
  dinotes := tx.dinotes
  donotes := tx.donotes
  txHash := tx.txHash
  accinProof := none
  inotesNctProofs := none
  rejectedInotesNctProofs := none
  subpoolProof := none
  spendSig := none
  consumeSig := none
  approvalSig := none

/-- The checks that a kind switches on, of the hash `message`. -/
structure Checks (perm : State → State) (sigs : TxSignatureTargets) (tx : Spend.BuiltPrivTx)
    (accin : AccountTarget) (message : HashOut) : Prop where
  fresh : AssertFreshAccount accin (boolTarget tx.txKindFlags.isFreshAcc)
  act : CondHashEq (Circuit.and (Circuit.not (boolTarget tx.txKindFlags.isFreshAcc))
    (boolTarget tx.txKindFlags.notFakeTx)) ((actPath tx).root perm (deriveAccountCommitment perm accin))
    tx.stateRoot
  subpool : AssertSubpoolFullProof perm (mainPath tx) tx.accin.subpoolId tx.approvalKey
    tx.mainpoolConfigRoot (boolTarget tx.txKindFlags.notFakeTx)
  spend : sigs.spend.Satisfied perm message tx.accin.spendAuth.pkOrDefault 0
  consume : sigs.consume.Satisfied perm message tx.accin.consumeAuth.pkOrDefault 0
  approval : sigs.approval.Satisfied perm message tx.approvalKey (boolTarget tx.txKindFlags.notFakeTx)

variable {perm : State → State}

theorem at?_ofFn {α : Type} {n : ℕ} (f : Fin n → α) (i : Fin n) :
    Spend.at? (List.ofFn f) i.val = .ok (f i) := by
  refine Spend.at?_eq_ok ?_
  rw [List.getElem?_ofFn, dif_pos i.isLt]

theorem default_entry {ast : AccountStateTree} {ds : List HashOut} (hm : Mirrors perm ast ds) :
    amountOrNext ast 0 = (0, 0) := by
  rw [amountOrNext, AccountStateTree.amountFor, hm.default]
  rfl

/-- The default asset is opened with amount zero. -/
theorem default_opens {ast : AccountStateTree} {ds : List HashOut} (hm : Mirrors perm ast ds) :
    AssertAssetAmtOrDefaultInAst perm (pathTarget ACC_AST_DEPTH
        (proofOf (hashOutput perm) ACC_AST_DEPTH ds 0).siblings
        (proofOf (hashOutput perm) ACC_AST_DEPTH ds 0).path) 0
      (U256Target.set (amountOrNext ast 0).2)
      (Lib.node (hashOutput perm).node ((hashOutput perm).leafOf ds) ACC_AST_DEPTH 0)
      (boolTarget (ast.amountFor 0).isSome) := by
  have hleaf : ast.entryLeaf perm 0 = (hashOutput perm).leafOf ds 0 := by
    rw [AccountStateTree.entryLeaf, AccountStateTree.amountFor, hm.default]
    have hfirst := hm.first
    rw [leafOf_getElem? (List.getElem?_eq_some_iff.mp hfirst).1] at hfirst
    exact (Option.some.inj hfirst).symm
  refine ⟨pathTarget_satisfied _ _, ?_, Spend.absent_entry _ _⟩
  rw [Spend.existsOrDefault_entry, hleaf, StateSync.pathTarget_proofOf_root (by decide),
    Function.update_eq_self]

theorem orAll_zero : orAll (fun _ => 0) = 0 := by
  have hflags := @TxCircuitTargets.orAll_eq_one (fun _ => 0) fun _ => isBool_iff.mpr (.inl rfl)
  refine (isBool_iff.mp hflags.1).resolve_right fun hone => ?_
  obtain ⟨-, hzero⟩ := hflags.2.mp hone
  exact zero_ne_one hzero

section Written

variable {tx : Spend.BuiltPrivTx} {dinotes donotes : Fin NOTE_BATCH → HashOut}
  {sigs : TxSignatureTargets} {tin tout : AccountTarget} {ast : AstTargets} {ds : List HashOut}

theorem assetId_eq (h : Noteless tx dinotes donotes) : tx.assetId = 0 := by
  rw [Spend.BuiltPrivTx.assetId, h.rejected, h.inotes, h.onotes]
  rfl

/-- The seeds fill all slots, so that the checks of the notes pass. -/
theorem setNotesWitness_ok (h : Noteless tx dinotes donotes) :
    tx.setNotesWitness perm tin 0 = .ok (notesTargets perm tin dinotes donotes) := by
  have hroom : ¬ (0 + max 0 0 ≥ NOTE_BATCH) := by decide
  have hin : (collect fun i : Fin NOTE_BATCH => tx.inoteTargets perm tin 0 i.val) =
      .ok (notesTargets perm tin dinotes donotes).inotes := by
    refine collect_eq_ok fun i => ?_
    rw [Spend.BuiltPrivTx.inoteTargets, h.rejected, h.inotes, h.dinotes]
    exact (Spend.bySlot_dummy (Nat.zero_le _)).trans (bind_eq_ok.mpr ⟨_, at?_ofFn dinotes i, rfl⟩)
  have hout : (collect fun i : Fin NOTE_BATCH => tx.onoteTargets 0 i.val) =
      .ok (notesTargets perm tin dinotes donotes).onotes := by
    refine collect_eq_ok fun i => ?_
    rw [Spend.BuiltPrivTx.onoteTargets, h.rejected, h.onotes, h.donotes]
    exact (Spend.bySlot_dummy (Nat.zero_le _)).trans (bind_eq_ok.mpr ⟨_, at?_ofFn donotes i, rfl⟩)
  rw [Spend.BuiltPrivTx.setNotesWitness, hin, hout, h.rejected, h.inotes, h.onotes, h.dinotes, h.donotes]
  exact revertIf_bind_eq_ok.mpr ⟨hroom, revertIf_bind_eq_ok.mpr ⟨not_not.mpr List.length_ofFn,
    revertIf_bind_eq_ok.mpr ⟨not_not.mpr List.length_ofFn, rfl⟩⟩⟩

theorem notesTargets_witness (root : HashOut) :
    Spend.NotesWitness perm root tin 0 (noNotes tx)
      (slots tx.accin tx.accout dinotes donotes).inotes
      (slots tx.accin tx.accout dinotes donotes).onotes (notesTargets perm tin dinotes donotes) where
  inotes := fun i => Spend.dummyInote_witness (dinotes i) root
  onotes := fun i => Spend.dummyOnote_witness (donotes i)
  reject := fun _ => Spend.assertRejectNotePair_zero _ _ _
  flags := fun _ => isBool_boolTarget false

/-- No asset is changed: the default one is opened with amount zero on both sides. -/
theorem setAstWitness_ok (h : Noteless tx dinotes donotes) (hm : Mirrors perm tx.accin.ast ds) :
    ∃ t, tx.setAstWitness perm = .ok t ∧ Spend.AstWitness perm tx 0 t := by
  have hasset := h.assetId_eq
  have hkept : tx.accout.ast = tx.accin.ast := by
    obtain ⟨spendAuth, consumeAuth, haccout⟩ := h.account
    exact (congrArg StandardAccount.ast haccout).trans rfl
  have hentry := default_entry hm
  have hproof : treeResult (tx.accin.ast.tree.merkleProof (hashOutput perm) 0) =
      .ok (proofOf (hashOutput perm) ACC_AST_DEPTH ds 0) := by
    rw [merkleProof_represents hm.tree AccountStateTree.depth_pos hm.room]
    rfl
  have hside := default_opens hm
  have hwritten : tx.setAstWitness perm = .ok {
      accinAmt := U256Target.set (amountOrNext tx.accin.ast 0).2
      accoutAmt := U256Target.set (amountOrNext tx.accin.ast 0).2
      assetExistsInAccin := boolTarget (tx.accin.ast.amountFor 0).isSome
      assetExistsInAccout := boolTarget (tx.accin.ast.amountFor 0).isSome
      accinAstMerkle := pathTarget ACC_AST_DEPTH
        (proofOf (hashOutput perm) ACC_AST_DEPTH ds 0).siblings
        (proofOf (hashOutput perm) ACC_AST_DEPTH ds 0).path } := by
    rw [Spend.BuiltPrivTx.setAstWitness, hkept, hasset]
    refine revertIf_bind_eq_ok.mpr ⟨not_not.mpr rfl, bind_eq_ok.mpr ⟨_, ?_, bind_eq_ok.mpr ⟨_,
      proveOrPanic_eq_ok.mpr (Spend.merkleTarget_proofOf _ _ _), rfl⟩⟩⟩
    rw [hentry]
    exact proveOrPanic_eq_ok.mpr hproof
  refine ⟨_, hwritten, ?_⟩
  exact {
    accin_amt := by rw [hasset]
    accout_amt := by rw [hentry]
    exists_accin := isBool_boolTarget _
    exists_accout := isBool_boolTarget _
    update := ⟨_, _, hm.root, by rw [hkept, hm.root], by
      rw [hasset]
      exact ⟨hside, hside⟩⟩ }

variable (perm) in
/-- The written targets. -/
def written (tx : Spend.BuiltPrivTx) (dinotes donotes : Fin NOTE_BATCH → HashOut)
    (sigs : TxSignatureTargets) (tin tout : AccountTarget) (ast : AstTargets) : TxCircuitTargets :=
  tx.targets sigs tin tout (mainPath tx) (actPath tx) ast (notesTargets perm tin dinotes donotes)

theorem setWitness_iff (h : Noteless tx dinotes donotes) {w : TxCircuitTargets}
    (hin : AccountTarget.setWitness perm tx.accin = .ok tin)
    (hout : AccountTarget.setWitness perm tx.accout = .ok tout)
    (hast : tx.setAstWitness perm = .ok ast) : tx.setWitness perm sigs = .ok w ↔
      tx.subpoolProof.mainPoolProof.siblings.length = MAIN_POOL_CONFIG_DEPTH ∧
        written perm tx dinotes donotes sigs tin tout ast = w := by
  have hact : merkleTarget STATE_TREE_DEPTH tx.accinMerkleProof = .ok (actPath tx) :=
    merkleTarget_iff.mpr ⟨h.path, rfl⟩
  have hslots := @setNotesWitness_ok perm tx dinotes donotes tin h
  rw [Spend.BuiltPrivTx.setWitness, h.assetId_eq, hin, hout, hast, hact]
  show (Spend.proveOrPanic (merkleTarget MAIN_POOL_CONFIG_DEPTH tx.subpoolProof.mainPoolProof) >>=
    fun path => tx.setNotesWitness perm tin 0 >>=
      fun notes => pure (tx.targets sigs tin tout path (actPath tx) ast notes)) = _ ↔ _
  rw [hslots]
  constructor
  · intro hw
    obtain ⟨path, hpath, hw⟩ := bind_eq_ok.mp hw
    obtain ⟨hdepth, rfl⟩ := merkleTarget_iff.mp (proveOrPanic_eq_ok.mp hpath)
    exact ⟨hdepth, Except.ok.inj hw⟩
  · rintro ⟨hdepth, rfl⟩
    exact bind_eq_ok.mpr ⟨_, proveOrPanic_eq_ok.mpr (merkleTarget_iff.mpr ⟨hdepth, rfl⟩), rfl⟩

theorem holds (hin : AccountTarget.setWitness perm tx.accin = .ok tin)
    (hout : AccountTarget.setWitness perm tx.accout = .ok tout) :
    (written perm tx dinotes donotes sigs tin tout ast).Holds perm
      (slots tx.accin tx.accout dinotes donotes) where
  accin := hin
  accout := hout
  inotes := fun _ => ⟨rfl, rfl⟩
  onotes := fun _ => ⟨rfl, rfl⟩

/-- No signature of a key is asked for. -/
theorem isSpendReq_written : (written perm tx dinotes donotes sigs tin tout ast).isSpendReq = 0 := by
  refine (congrArg orAll (funext fun i => ?_)).trans orAll_zero
  exact zero_mul _

theorem checkConsumeSig_written :
    (written perm tx dinotes donotes sigs tin tout ast).checkConsumeSig = 0 := by
  have hinotes : orAll (written perm tx dinotes donotes sigs tin tout ast).inotesIsactive = 0 :=
    orAll_zero
  rw [TxCircuitTargets.checkConsumeSig, hinotes]
  exact (congrArg (· * _) (zero_mul _)).trans (zero_mul _)

/-- What the witness does not make hold by itself. -/
theorem satisfied_iff (h : Noteless tx dinotes donotes) (hm : Mirrors perm tx.accin.ast ds)
    (hin : AccountTarget.setWitness perm tx.accin = .ok tin)
    (hout : AccountTarget.setWitness perm tx.accout = .ok tout)
    (hast : Spend.AstWitness perm tx 0 ast) :
    (written perm tx dinotes donotes sigs tin tout ast).Satisfied perm ↔
      Checks perm sigs tx tin ((written perm tx dinotes donotes sigs tin tout ast).txHash perm) := by
  obtain ⟨r, hr, hin'⟩ : ∃ r, tx.accin.ast.root perm = .ok r ∧ accountTarget tx.accin r = tin := by
    obtain ⟨r, hr, -⟩ := bind_eq_ok.mp hin
    exact ⟨r, hr, Except.ok.inj ((setWitness_eq hr).symm.trans hin)⟩
  obtain ⟨r', hr', hout'⟩ : ∃ r, tx.accout.ast.root perm = .ok r ∧
      accountTarget tx.accout r = tout := by
    obtain ⟨r, hr, -⟩ := bind_eq_ok.mp hout
    exact ⟨r, hr, Except.ok.inj ((setWitness_eq hr).symm.trans hout)⟩
  have hnotes := @notesTargets_witness perm tx dinotes donotes tin tx.stateRoot
  rw [← h.assetId_eq] at hnotes
  have hbalance : (written perm tx dinotes donotes sigs tin tout ast).AssertBalanceInvariant := by
    refine Spend.targets_balance hast hnotes (Nat.zero_le _) (Nat.zero_le _) ?_
    rw [h.assetId_eq, default_entry hm]
    rfl
  have hnote := Spend.targets_constraints hin hout hast hnotes hbalance
  constructor
  · intro hw
    obtain ⟨hs, hc, ha⟩ := hw.signatures
    rw [isSpendReq_written] at hs
    rw [checkConsumeSig_written] at hc
    have hsub := hw.subpool
    subst hin'
    exact ⟨hw.fresh, hw.act.2, hsub, hs, hc, ha⟩
  · intro hchecks
    obtain ⟨spendAuth, consumeAuth, haccout⟩ := h.account
    have hroot : r' = r := by
      rw [haccout] at hr'
      exact Except.ok.inj (hr'.symm.trans hr)
    subst hin' hout' hroot
    refine {
      allocated := hnote.allocated
      fresh := hchecks.fresh
      invariants := ?_
      act := ⟨pathTarget_satisfied _ _, hchecks.act⟩
      ast := hnote.ast
      reject := hnote.reject
      asset_id := hnote.asset_id
      inotes := hnote.inotes
      balance := hbalance
      subpool := hchecks.subpool
      signatures := ?_ }
    · -- the keys are free, as the transaction is not a private one
      have hflag : (written perm tx dinotes donotes sigs (accountTarget tx.accin r')
          (accountTarget tx.accout r') ast).isPrivTx = 0 := congrArg boolTarget h.not_priv_tx
      rw [hflag]
      refine {
        private_identifier := ?_
        subpool_id := ?_
        nonce := ?_
        ast_root := condHashEq_self _ _
        spend_auth := fun _ => condEq_zero _ _
        consume_pk := fun _ => condEq_zero _ _
        consume_config := condEq_zero _ _ }
      · exact (congrArg StandardAccount.privateIdentifier haccout).symm
      · exact (congrArg StandardAccount.subpoolId haccout).symm
      · exact congrArg StandardAccount.nonce haccout
    · refine ⟨?_, ?_, hchecks.approval⟩
      · rw [isSpendReq_written]
        exact hchecks.spend
      · rw [checkConsumeSig_written]
        exact hchecks.consume

end Written

end Noteless

end Doxa.Client
