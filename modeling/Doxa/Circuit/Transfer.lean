import Doxa.Circuit.Forgery
import Doxa.Circuit.PrivTx

/-!
# Assignments of the private transaction circuit

A prover who does not know any key can fill in the three signature gadgets
(`fillSignatures`), so an assignment that meets the other constraints extends to one that
satisfies the circuit. `Transfer.targets` is such an assignment: one account, at most one
input and one output note, and a state tree whose first two leaves are the account and the
input note.
-/

namespace Doxa.Circuit

variable (perm : State → State)

namespace TxCircuitTargets

variable (t : TxCircuitTargets)

/-- The assignment with forged signatures. -/
def fillSignatures : TxCircuitTargets :=
  { t with
    spend := forgedTargets perm (t.txHash perm) t.accin.spendAuth
    consume := forgedTargets perm (t.txHash perm) t.accin.consumeAuth.pk
    approval := forgedTargets perm (t.txHash perm) t.approvalKey }

theorem fillSignatures_signatures : (t.fillSignatures perm).AssertTxSignatures perm where
  spend := forgedTargets_satisfied _ _ _ _
  consume := forgedTargets_satisfied _ _ _ _
  approval := forgedTargets_satisfied _ _ _ _

/-- The assignment with other positions and roots; the signatures are forged anew. -/
def rewire (inotesPos : Fin NOTE_BATCH → F) (root mainpoolConfigRoot : HashOut) :
    TxCircuitTargets :=
  { t with
    inotesPos := inotesPos
    root := root
    mainpoolConfigRoot := mainpoolConfigRoot }.fillSignatures perm

variable {perm t}

/-- Only the three membership checks read the roots, and only the signatures read the
positions. -/
theorem Satisfied.rewire (h : t.Satisfied perm) (inotesPos : Fin NOTE_BATCH → F)
    {root mainpoolConfigRoot : HashOut}
    (hact : t.accinActMerkle.ConditionalVerify perm (t.accinComm perm) root
      (and (not t.isFreshAcc) t.notFakeTx))
    (hinotes : ∀ i, (t.inotesNctMerkle i).ConditionalVerify perm (t.inotesComm perm i) root
      (t.inotesIsactive i))
    (hsubpool : AssertSubpoolFullProof perm t.mainPoolProof t.accin.subpoolId t.approvalKey
      mainpoolConfigRoot t.notFakeTx) :
    (t.rewire perm inotesPos root mainpoolConfigRoot).Satisfied perm where
  allocated := {
    not_fake_tx := h.allocated.not_fake_tx
    is_fresh_acc := h.allocated.is_fresh_acc
    is_update_auth := h.allocated.is_update_auth
    is_priv_tx := h.allocated.is_priv_tx
    asset_exists_in_accin := h.allocated.asset_exists_in_accin
    asset_exists_in_accout := h.allocated.asset_exists_in_accout
    accin := h.allocated.accin
    accout := h.allocated.accout
    inotes_isactive := h.allocated.inotes_isactive
    onotes_isactive := h.allocated.onotes_isactive
    is_note_pair_rjct := h.allocated.is_note_pair_rjct }
  fresh := h.fresh
  invariants := h.invariants
  act := hact
  ast := h.ast
  reject := h.reject
  asset_id := h.asset_id
  inotes := {
    membership := hinotes
    recipient := h.inotes.recipient
    recipient_subpool := h.inotes.recipient_subpool }
  balance := {
    lhs := h.balance.lhs
    rhs := h.balance.rhs
    equal := h.balance.equal }
  subpool := hsubpool
  signatures := fillSignatures_signatures perm _

end TxCircuitTargets

/-! ## A tree of two leaves -/

/-- The path of the first leaf when `sibling` is the second one. -/
def firstLeafPath (depth : ℕ) (sibling : HashOut) : MerkleRootTarget depth where
  siblings := fun i => if i.val = 0 then sibling else 0
  bits := fun _ => 0

/-- The path of the second leaf. -/
def secondLeafPath (depth : ℕ) (sibling : HashOut) : MerkleRootTarget depth where
  siblings := fun i => if i.val = 0 then sibling else 0
  bits := fun i => if i.val = 0 then 1 else 0

theorem firstLeafPath_satisfied (depth : ℕ) (sibling : HashOut) :
    (firstLeafPath depth sibling).Satisfied := fun _ => isBool_iff.mpr (.inl rfl)

theorem secondLeafPath_satisfied (depth : ℕ) (sibling : HashOut) :
    (secondLeafPath depth sibling).Satisfied := by
  intro i
  rw [isBool_iff]
  simp only [secondLeafPath]
  split
  · exact .inr rfl
  · exact .inl rfl

/-- Both paths lead to one root. -/
theorem secondLeafPath_root (depth : ℕ) (hdepth : 0 < depth) (a b : HashOut) :
    (secondLeafPath depth a).root perm b = (firstLeafPath depth b).root perm a := by
  obtain ⟨n, rfl⟩ := Nat.exists_eq_succ_of_ne_zero hdepth.ne'
  unfold MerkleRootTarget.root
  rw [Fin.foldl_succ, Fin.foldl_succ]
  simp only [firstLeafPath, secondLeafPath, Fin.val_zero, if_true, Fin.val_succ,
    Nat.add_one_ne_zero, if_false]
  rw [swapped_comm]

/-! ## Transfers -/

/-- The free choices of a transfer. -/
structure Transfer where
  notFakeTx : F
  assetId : F
  accinAmt : U256Target
  assetExistsInAccin : F
  accoutAmt : U256Target
  assetExistsInAccout : F
  inoteAmt : U256Target
  inoteActive : F
  inotePos : F
  onoteAmt : U256Target
  onoteActive : F
  donote : HashOut
  lhs : U256AdditionChain
  rhs : U256AdditionChain

namespace Transfer

variable (d : Transfer)

/-- The account with the given nonce and asset root; the keys are the default ones. -/
def account (nonce : F) (accAstRoot : HashOut) : AccountTarget where
  privateIdentifier := ![1, 2]
  nonce := nonce
  subpoolId := 1
  accAstRoot := accAstRoot
  spendAuth := DEFAULT_SPEND_AUTH_PK
  consumeAuth := { config := 0, pk := DEFAULT_ACC_COMM_CONSUME_PK_PLACEHOLDER }

/-- A note of the transfer, from and to the account. -/
def note (amount : U256Target) : StandardNoteTarget where
  identifier := ![3, 4]
  amount := amount
  assetId := d.assetId
  recipient := { subpoolId := 1, publicIdentifier := derivePublicIdentifier perm ![1, 2] }
  sender := { subpoolId := 1, publicIdentifier := derivePublicIdentifier perm ![1, 2] }

/-- `x` in the first slot, `y` in the others. -/
def inFirst {α : Type*} (x y : α) (i : Fin NOTE_BATCH) : α := if i = 0 then x else y

def accin : AccountTarget :=
  account 5 ((MerkleRootTarget.zero ACC_AST_DEPTH).root perm
    (existsOrDefault perm d.assetId d.accinAmt d.assetExistsInAccin))

def accout : AccountTarget :=
  account (5 + 1) ((MerkleRootTarget.zero ACC_AST_DEPTH).root perm
    (existsOrDefault perm d.assetId d.accoutAmt d.assetExistsInAccout))

def accinComm : HashOut := deriveAccountCommitment perm (d.accin perm)

def inoteComm : HashOut := deriveNoteCommitment perm (d.note perm d.inoteAmt)

/-- The assignment without the signatures. -/
def unsigned : TxCircuitTargets where
  notFakeTx := d.notFakeTx
  isFreshAcc := 0
  isUpdateAuth := 0
  isPrivTx := 1
  root := (firstLeafPath STATE_TREE_DEPTH (d.inoteComm perm)).root perm (d.accinComm perm)
  mainpoolConfigRoot := (MerkleRootTarget.zero MAIN_POOL_CONFIG_DEPTH).root perm
    (mainPoolLeaf perm 1 DEFAULT_SPEND_AUTH_PK)
  approvalKey := DEFAULT_SPEND_AUTH_PK
  assetId := d.assetId
  accinAmt := d.accinAmt
  assetExistsInAccin := d.assetExistsInAccin
  accoutAmt := d.accoutAmt
  assetExistsInAccout := d.assetExistsInAccout
  accin := d.accin perm
  accout := d.accout perm
  accinActMerkle := firstLeafPath STATE_TREE_DEPTH (d.inoteComm perm)
  accinAstMerkle := MerkleRootTarget.zero ACC_AST_DEPTH
  inotes := inFirst (d.note perm d.inoteAmt) (d.note perm 0)
  inotesPos := inFirst d.inotePos 0
  inotesIsactive := inFirst d.inoteActive 0
  onotes := inFirst (d.note perm d.onoteAmt) (d.note perm 0)
  onotesIsactive := inFirst d.onoteActive 0
  isNotePairRjct := fun _ => 0
  dinotes := fun _ => 0
  donotes := fun _ => d.donote
  inotesNctMerkle := fun _ => secondLeafPath STATE_TREE_DEPTH (d.accinComm perm)
  lhs := d.lhs
  rhs := d.rhs
  mainPoolProof := MerkleRootTarget.zero MAIN_POOL_CONFIG_DEPTH
  spend := forgedTargets perm 0 DEFAULT_SPEND_AUTH_PK
  consume := forgedTargets perm 0 DEFAULT_SPEND_AUTH_PK
  approval := forgedTargets perm 0 DEFAULT_SPEND_AUTH_PK

def targets : TxCircuitTargets := (d.unsigned perm).fillSignatures perm

/-- The amounts of the slots: only the first one may carry value. -/
def slotAmts (active : F) (amount : U256Target) : Fin NOTE_BATCH → U256Target :=
  inFirst (maskAmount active amount) (maskAmount 0 0)

/-- What a transfer has to meet besides the signatures. -/
structure Valid : Prop where
  not_fake_tx : IsBool d.notFakeTx
  exists_accin : IsBool d.assetExistsInAccin
  exists_accout : IsBool d.assetExistsInAccout
  inote_active : IsBool d.inoteActive
  onote_active : IsBool d.onoteActive
  absent_accin : ∀ i, CondEq (not d.assetExistsInAccin) (d.accinAmt i) 0
  absent_accout : ∀ i, CondEq (not d.assetExistsInAccout) (d.accoutAmt i) 0
  lhs : d.lhs.Satisfied d.accinAmt (slotAmts d.inoteActive d.inoteAmt)
  rhs : d.rhs.Satisfied d.accoutAmt (slotAmts d.onoteActive d.onoteAmt)
  equal : d.lhs.result = d.rhs.result

theorem maskAmount_inFirst (active : F) (n n' : StandardNoteTarget) (i : Fin NOTE_BATCH) :
    maskAmount (inFirst active 0 i) (inFirst n n' i).amount =
      inFirst (maskAmount active n.amount) (maskAmount 0 n'.amount) i := by
  unfold inFirst
  split <;> rfl

variable {d}

theorem inFirst_all {α : Type*} (p : α → Prop) {x y : α} (hx : p x) (hy : p y)
    (i : Fin NOTE_BATCH) : p (inFirst x y i) := by
  unfold inFirst
  split
  · exact hx
  · exact hy

/-- Only the note in the first slot is opened, at the second leaf. -/
theorem membership (i : Fin NOTE_BATCH) :
    ((d.targets perm).inotesNctMerkle i).ConditionalVerify perm ((d.targets perm).inotesComm perm i)
      (d.targets perm).root ((d.targets perm).inotesIsactive i) := by
  refine ⟨secondLeafPath_satisfied _ _, ?_⟩
  by_cases hi : i = 0
  · subst hi
    have hroot := secondLeafPath_root perm STATE_TREE_DEPTH (by decide) (d.accinComm perm)
      (d.inoteComm perm)
    change CondHashEq _ ((secondLeafPath STATE_TREE_DEPTH (d.accinComm perm)).root perm
      (d.inoteComm perm)) _
    rw [hroot]
    exact condHashEq_self _ _
  · have hzero : (d.targets perm).inotesIsactive i = 0 := if_neg hi
    rw [hzero]
    exact condHashEq_zero _ _

theorem Valid.satisfied (h : d.Valid) : (d.targets perm).Satisfied perm where
  allocated := {
    not_fake_tx := h.not_fake_tx
    is_fresh_acc := isBool_iff.mpr (.inl rfl)
    is_update_auth := isBool_iff.mpr (.inl rfl)
    is_priv_tx := isBool_iff.mpr (.inr rfl)
    asset_exists_in_accin := h.exists_accin
    asset_exists_in_accout := h.exists_accout
    accin := isBool_iff.mpr (.inl rfl)
    accout := isBool_iff.mpr (.inl rfl)
    inotes_isactive := inFirst_all IsBool h.inote_active (isBool_iff.mpr (.inl rfl))
    onotes_isactive := inFirst_all IsBool h.onote_active (isBool_iff.mpr (.inl rfl))
    is_note_pair_rjct := fun _ => isBool_iff.mpr (.inl rfl) }
  fresh := {
    ast_root := condHashEq_zero _ _
    nonce := condEq_zero _ _
    spend_auth := fun _ => condEq_zero _ _
    config := condEq_zero _ _
    consume_auth := fun _ => condEq_zero _ _ }
  invariants := {
    private_identifier := Eq.trans (b := ![1, 2]) rfl rfl
    subpool_id := Eq.trans (b := 1) rfl rfl
    nonce := rfl
    ast_root := by
      change CondHashEq (1 - 1) _ _
      rw [sub_self]
      exact condHashEq_zero _ _
    spend_auth := fun i => condEq_self 1 (DEFAULT_SPEND_AUTH_PK i)
    consume_pk := fun i => condEq_self 1 (DEFAULT_ACC_COMM_CONSUME_PK_PLACEHOLDER i)
    consume_config := condEq_self 1 0 }
  act := MerkleRootTarget.verify_self perm (firstLeafPath_satisfied _ _) _ _
  ast := {
    accin := {
      path := MerkleRootTarget.zero_satisfied _
      root := rfl
      absent := h.absent_accin }
    accout := {
      path := MerkleRootTarget.zero_satisfied _
      root := rfl
      absent := h.absent_accout } }
  reject := fun _ => {
    active := condEq_zero _ _
    identifier := fun _ => condEq_zero _ _
    amount := fun _ => condEq_zero _ _
    asset_id := condEq_zero _ _
    recipient_subpool := condEq_zero _ _
    recipient_identifier := fun _ => condEq_zero _ _
    sender_subpool := condEq_zero _ _
    sender_identifier := fun _ => condEq_zero _ _ }
  asset_id := fun i =>
    ⟨inFirst_all (fun n : StandardNoteTarget => n.assetId = d.assetId) rfl rfl i,
      inFirst_all (fun n : StandardNoteTarget => n.assetId = d.assetId) rfl rfl i⟩
  inotes := {
    membership := membership perm
    recipient := inFirst_all
      (fun n : StandardNoteTarget => n.recipient.publicIdentifier = _) rfl rfl
    recipient_subpool := inFirst_all
      (fun n : StandardNoteTarget => n.recipient.subpoolId = 1) rfl rfl }
  balance := {
    lhs := by
      have hamts : (d.targets perm).inoteAmts = slotAmts d.inoteActive d.inoteAmt :=
        funext (maskAmount_inFirst d.inoteActive _ _)
      rw [hamts]
      exact h.lhs
    rhs := by
      have hamts : (d.targets perm).onoteAmts = slotAmts d.onoteActive d.onoteAmt :=
        funext (maskAmount_inFirst d.onoteActive _ _)
      rw [hamts]
      exact h.rhs
    equal := h.equal }
  subpool := MerkleRootTarget.verify_self perm (MerkleRootTarget.zero_satisfied _) _ _
  signatures := (d.unsigned perm).fillSignatures_signatures perm

variable (d) in
/-- The same transfer with another position and another dummy value. -/
def relabel (inotePos : F) (donote : HashOut) : Transfer :=
  { d with inotePos := inotePos, donote := donote }

/-- No constraint of a transfer reads the position or the dummy value. -/
theorem Valid.relabel (h : d.Valid) (inotePos : F) (donote : HashOut) :
    (d.relabel inotePos donote).Valid where
  not_fake_tx := h.not_fake_tx
  exists_accin := h.exists_accin
  exists_accout := h.exists_accout
  inote_active := h.inote_active
  onote_active := h.onote_active
  absent_accin := h.absent_accin
  absent_accout := h.absent_accout
  lhs := h.lhs
  rhs := h.rhs
  equal := h.equal

end Transfer

/-! ## A payment -/

/-- The account has ten units, consumes a note of five and pays three. -/
def payment : Transfer where
  notFakeTx := 1
  assetId := 9
  accinAmt := ![10, 0, 0, 0, 0, 0, 0, 0]
  assetExistsInAccin := 1
  accoutAmt := ![12, 0, 0, 0, 0, 0, 0, 0]
  assetExistsInAccout := 1
  inoteAmt := ![5, 0, 0, 0, 0, 0, 0, 0]
  inoteActive := 1
  inotePos := 1
  onoteAmt := ![3, 0, 0, 0, 0, 0, 0, 0]
  onoteActive := 1
  donote := 0
  lhs := { result := ![15, 0, 0, 0, 0, 0, 0, 0], carryOut := 0
           bytes := fun k j => if k = 0 ∧ j = 0 then 15 else 0 }
  rhs := { result := ![15, 0, 0, 0, 0, 0, 0, 0], carryOut := 0
           bytes := fun k j => if k = 0 ∧ j = 0 then 15 else 0 }

theorem payment_valid : payment.Valid where
  not_fake_tx := isBool_iff.mpr (.inr rfl)
  exists_accin := isBool_iff.mpr (.inr rfl)
  exists_accout := isBool_iff.mpr (.inr rfl)
  inote_active := isBool_iff.mpr (.inr rfl)
  onote_active := isBool_iff.mpr (.inr rfl)
  absent_accin := by decide +kernel
  absent_accout := by decide +kernel
  lhs := { range := by decide +kernel, limb := by decide +kernel }
  rhs := { range := by decide +kernel, limb := by decide +kernel }
  equal := rfl

end Doxa.Circuit
