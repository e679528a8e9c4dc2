import Doxa.Client.Deposit
import Doxa.Client.Noteless

/-!
# Transactions that pad a batch

A fake transaction is one of a fixed new account without notes, a fake deposit one of nothing into that
account. The builders set the flag of a real transaction to zero and take the two roots as they are,
so that the witness is written and satisfies the circuit for any roots, without a path to any of them
and without a signature (`fake_provable`, `fake_deposit_provable`).
-/

namespace Doxa.Client.FakeTx

open Lib Circuit Trees
open Spend (SubpoolFullProof TxKindFlags TxSignatureTargets amountOrNext boolTarget isBool_boolTarget)
open StateSync (pathTarget pathTarget_satisfied)

/-! ## The builder -/

structure FakeSpendTxBuilder where
  stateRoot : HashOut
  mainpoolConfigRoot : HashOut

structure BuiltFakeTx where
  stateRoot : HashOut
  mainpoolConfigRoot : HashOut

def TxKindFlags.FAKE : TxKindFlags where
  isFreshAcc := false
  isUpdateAuth := false
  isPrivTx := false
  notFakeTx := false

/-- `StandardAccount::fake`. -/
def fakeAccount (perm : State → State) : Except Failure StandardAccount :=
  StandardAccount.newWith perm ![2, 2] 0

/-- The key of the default `SubpoolFullProof`. -/
def dummyKey : CompressedPublicKey := fun i =>
  ((![7613690455422068269, 12930951591626745075, 16103143792840800039, 4657200339622395349,
    3857357297380158342] : Fin 5 → ℕ) i : F)

/-- `SubpoolFullProof::default`. -/
def defaultSubpoolProof : SubpoolFullProof where
  approvalKey := dummyKey
  mainPoolProof := Noteless.dummyMerkleProof MAIN_POOL_CONFIG_DEPTH

def FakeSpendTxBuilder.build (self : FakeSpendTxBuilder) : BuiltFakeTx :=
  ⟨self.stateRoot, self.mainpoolConfigRoot⟩

namespace BuiltFakeTx

variable (self : BuiltFakeTx)

/-- The fields of the unified transaction. -/
def privTx (accin : StandardAccount) : Spend.BuiltPrivTx where
  txKindFlags := TxKindFlags.FAKE
  accin := accin
  accout := accin.cloneWithIncrementedNonce
  accinMerkleProof := Noteless.dummyMerkleProof STATE_TREE_DEPTH
  rejectedInotes := []
  rejectedInotesNctProofs := []
  inotes := []
  inotesNctProofs := []
  onotes := []
  dinotes := List.replicate NOTE_BATCH 0
  donotes := List.replicate NOTE_BATCH 0
  txHash := 0
  stateRoot := self.stateRoot
  mainpoolConfigRoot := self.mainpoolConfigRoot
  subpoolProof := defaultSubpoolProof
  approvalKey := defaultSubpoolProof.approvalKey
  spendSig := none
  consumeSig := none
  approvalSig := none

def intoPrivTx (perm : State → State) : Except Failure Spend.BuiltPrivTx := do
  let accin ← fakeAccount perm
  return self.privTx accin

end BuiltFakeTx

/-! ## The builder of a deposit -/

structure FakeDepositTxBuilder where
  stateRoot : HashOut
  mainpoolConfigRoot : HashOut

structure BuiltFakeDepositTx where
  stateRoot : HashOut
  mainpoolConfigRoot : HashOut

def defaultForRecipient (recipient : AccountAddress) : DepositNote where
  identifier := 0
  recipient := recipient
  amount := 0
  assetId := 0

def FakeDepositTxBuilder.build (self : FakeDepositTxBuilder) : BuiltFakeDepositTx :=
  ⟨self.stateRoot, self.mainpoolConfigRoot⟩

namespace BuiltFakeDepositTx

variable (perm : State → State) (self : BuiltFakeDepositTx)

/-- The fields of the unified transaction. -/
def depositTx (accin : StandardAccount) : Deposit.BuiltDepositTx where
  notFakeTx := false
  accin := accin
  accout := accin.cloneWithIncrementedNonce
  depositNote := defaultForRecipient (accin.address perm)
  ethAddress := 0
  txHash := 0
  approvalKey := defaultSubpoolProof.approvalKey
  stateRoot := self.stateRoot
  mainPoolRoot := self.mainpoolConfigRoot
  accinActMerkleProof := Noteless.dummyMerkleProof STATE_TREE_DEPTH
  subpoolProof := defaultSubpoolProof
  consumeSig := none
  approvalSig := none

def intoDepositTx : Except Failure Deposit.BuiltDepositTx := do
  let accin ← fakeAccount perm
  return self.depositTx perm accin

end BuiltFakeDepositTx

/-! ## What is proven -/

/-- The signature targets meet the constraints of their gadgets with all checks off. -/
structure Idle (perm : State → State) (sigs : TxSignatureTargets) (message : HashOut) : Prop where
  spend : sigs.spend.Satisfied perm message DEFAULT_SPEND_AUTH_PK 0
  consume : sigs.consume.Satisfied perm message DEFAULT_ACC_COMM_CONSUME_PK_PLACEHOLDER 0
  approval : sigs.approval.Satisfied perm message dummyKey 0

variable {perm : State → State} {self : BuiltFakeTx} {accin : StandardAccount}

theorem fakeAccount_ok (perm : State → State) : ∃ accin, fakeAccount perm = .ok accin ∧
    AccountStateTree.new perm = .ok accin.ast ∧ accin.spendAuth = .default ∧ accin.consumeAuth = .default := by
  obtain ⟨ast, hnew⟩ := AccountStateTree.new_ok perm
  refine ⟨⟨![2, 2], 0, 0, .default, .default, ast⟩, ?_, hnew, rfl, rfl⟩
  rw [fakeAccount, StandardAccount.newWith, hnew]
  rfl

theorem privTx_noteless (self : BuiltFakeTx) (accin : StandardAccount) :
    Noteless (self.privTx accin) (fun _ => 0) fun _ => 0 where
  rejected := rfl
  inotes := rfl
  onotes := rfl
  dinotes := List.ofFn_const NOTE_BATCH 0 |>.symm
  donotes := List.ofFn_const NOTE_BATCH 0 |>.symm
  account := ⟨accin.spendAuth, accin.consumeAuth, rfl⟩
  not_priv_tx := rfl
  path := List.length_replicate

/-- The flags switch all checks off. -/
theorem fakeChecks_iff {sigs : TxSignatureTargets} {tin : AccountTarget} {message : HashOut}
    (hspend : accin.spendAuth = .default) (hconsume : accin.consumeAuth = .default) :
    Noteless.Checks perm sigs (self.privTx accin) tin message ↔ Idle perm sigs message := by
  have hkeys : (self.privTx accin).accin.spendAuth.pkOrDefault = DEFAULT_SPEND_AUTH_PK ∧
      (self.privTx accin).accin.consumeAuth.pkOrDefault = DEFAULT_ACC_COMM_CONSUME_PK_PLACEHOLDER := by
    constructor
    · exact congrArg SpendAuth.pkOrDefault hspend
    · exact congrArg ConsumeAuth.pkOrDefault hconsume
  constructor
  · intro h
    exact ⟨hkeys.1 ▸ h.spend, hkeys.2 ▸ h.consume, h.approval⟩
  · intro h
    refine {
      fresh := {
        ast_root := condHashEq_zero _ _
        nonce := condEq_zero _ _
        spend_auth := fun _ => condEq_zero _ _
        config := condEq_zero _ _
        consume_auth := fun _ => condEq_zero _ _ }
      act := ?_
      subpool := ⟨pathTarget_satisfied _ _, condHashEq_zero _ _⟩
      spend := hkeys.1.symm ▸ h.spend
      consume := hkeys.2.symm ▸ h.consume
      approval := h.approval }
    have hidle : Circuit.and (Circuit.not 0) 0 = 0 := mul_zero _
    show CondHashEq (Circuit.and (Circuit.not 0) 0) _ _
    rw [hidle]
    exact condHashEq_zero _ _

theorem exists_idle (perm : State → State) (message : HashOut) : ∃ sigs, Idle perm sigs message :=
  ⟨⟨forgedTargets perm message _, forgedTargets perm message _, forgedTargets perm message _⟩,
    forgedTargets_satisfied _ _ _ _, forgedTargets_satisfied _ _ _ _, forgedTargets_satisfied _ _ _ _⟩

/-- A fake transaction satisfies the circuit for any two roots: nothing but the shape of the three
signature gadgets is asked for. -/
theorem fake_provable (perm : State → State) (stateRoot mainpoolConfigRoot : HashOut) : ∃ ptx,
    ((⟨stateRoot, mainpoolConfigRoot⟩ : FakeSpendTxBuilder).build).intoPrivTx perm = .ok ptx ∧
      (∀ sigs, ∃ w, ptx.setWitness perm sigs = .ok w ∧ w.root = stateRoot ∧
        w.mainpoolConfigRoot = mainpoolConfigRoot ∧ w.notFakeTx = 0 ∧
        (w.Satisfied perm ↔ Idle perm sigs (w.txHash perm))) ∧
      ∃ sigs w, ptx.setWitness perm sigs = .ok w ∧ w.Satisfied perm := by
  obtain ⟨accin, haccin, hnew, hspend, hconsume⟩ := fakeAccount_ok perm
  have hnoteless := privTx_noteless ⟨stateRoot, mainpoolConfigRoot⟩ accin
  have hm := AccountStateTree.new_eq_ok hnew
  obtain ⟨tin, hin⟩ : ∃ tin, AccountTarget.setWitness perm accin = .ok tin := ⟨_, setWitness_eq hm.root⟩
  obtain ⟨tout, hout⟩ : ∃ tout, AccountTarget.setWitness perm accin.cloneWithIncrementedNonce = .ok tout :=
    ⟨_, setWitness_eq (show _ = Except.ok _ from hm.root)⟩
  obtain ⟨ast, hast, hwitness⟩ := hnoteless.setAstWitness_ok hm
  have hwritten {sigs} := (@Noteless.setWitness_iff perm _ _ _ sigs _ _ ast hnoteless _ hin hout hast).mpr
    ⟨List.length_replicate, rfl⟩
  have hsatisfied {sigs} :=
    (@Noteless.satisfied_iff perm _ _ _ sigs _ _ ast _ hnoteless hm hin hout hwitness).trans
      (fakeChecks_iff hspend hconsume)
  refine ⟨_, bind_eq_ok.mpr ⟨accin, haccin, rfl⟩, fun sigs => ⟨_, hwritten, rfl, rfl, rfl, hsatisfied⟩, ?_⟩
  -- the hash does not depend on the signature targets
  obtain ⟨sigs, hidle⟩ := exists_idle perm ((Noteless.written perm
    (BuiltFakeTx.privTx ⟨stateRoot, mainpoolConfigRoot⟩ accin) (fun _ => 0) (fun _ => 0)
    ⟨honestTargets, honestTargets, honestTargets⟩ tin tout ast).txHash perm)
  exact ⟨sigs, _, hwritten, hsatisfied.mpr hidle⟩

section Deposit

variable {ds : List HashOut} {sigs : Deposit.DepositTxSignatureTargets} {tin tout : AccountTarget}

/-- The targets of a fake deposit; the default asset keeps amount zero. -/
def depositTargets (perm : State → State) (self : BuiltFakeDepositTx) (accin : StandardAccount)
    (ds : List HashOut) (sigs : Deposit.DepositTxSignatureTargets) (tin tout : AccountTarget) :
    DepositTxTargets where
  notFakeTx := boolTarget false
  approvalKey := dummyKey
  stateRoot := self.stateRoot
  mainpoolConfigRoot := self.mainpoolConfigRoot
  accin := tin
  accout := tout
  assetId := 0
  accinAmt := U256Target.set (amountOrNext accin.ast 0).2
  accoutAmt := U256Target.set (amountOrNext accin.ast 0).2
  assetExistsInAccin := boolTarget (accin.ast.amountFor 0).isSome
  assetExistsInAccout := boolTarget (accin.ast.amountFor 0).isSome
  depositNote := DepositNoteTarget.set (defaultForRecipient (accin.address perm))
  ethAddress := mapH160ToF 0
  accinActMerkle := pathTarget STATE_TREE_DEPTH (Noteless.dummyMerkleProof STATE_TREE_DEPTH).siblings
    (Noteless.dummyMerkleProof STATE_TREE_DEPTH).path
  accinAstMerkle := pathTarget ACC_AST_DEPTH (proofOf (hashOutput perm) ACC_AST_DEPTH ds 0).siblings
    (proofOf (hashOutput perm) ACC_AST_DEPTH ds 0).path
  sum := U256AdditionChain.generate (U256Target.set (amountOrNext accin.ast 0).2)
    ![U256Target.set (defaultForRecipient (accin.address perm)).amount]
  mainPoolProof := pathTarget MAIN_POOL_CONFIG_DEPTH defaultSubpoolProof.mainPoolProof.siblings
    defaultSubpoolProof.mainPoolProof.path
  consume := sigs.consume
  approval := sigs.approval

theorem depositTx_setWitness {self : BuiltFakeDepositTx} (hm : AccountStateTree.Mirrors perm accin.ast ds)
    (hin : AccountTarget.setWitness perm accin = .ok tin)
    (hout : AccountTarget.setWitness perm accin.cloneWithIncrementedNonce = .ok tout) :
    (self.depositTx perm accin).setWitness perm sigs =
      .ok (depositTargets perm self accin ds sigs tin tout) := by
  have hentry := Noteless.default_entry hm
  have hamount : Deposit.addAmounts (amountOrNext accin.ast 0).2
      (defaultForRecipient (accin.address perm)).amount = .ok (amountOrNext accin.ast 0).2 := by
    rw [hentry]
    rfl
  have hproof : accin.ast.merkleProofAt perm (amountOrNext accin.ast 0).1 =
      .ok (proofOf (hashOutput perm) ACC_AST_DEPTH ds 0) := by
    rw [hentry]
    exact hm.merkleProofAt 0
  exact bind_eq_ok.mpr ⟨_, hamount, bind_eq_ok.mpr ⟨_,
    Spend.merkleTarget_iff.mpr ⟨List.length_replicate, rfl⟩, bind_eq_ok.mpr ⟨_, hproof,
      bind_eq_ok.mpr ⟨_, Spend.merkleTarget_proofOf _ _ _, bind_eq_ok.mpr ⟨_,
        Spend.merkleTarget_iff.mpr ⟨List.length_replicate, rfl⟩, bind_eq_ok.mpr ⟨_, hin,
          bind_eq_ok.mpr ⟨_, hout, rfl⟩⟩⟩⟩⟩⟩⟩

/-- The note is for the account itself, and the checks of the roots and signatures are off. -/
theorem depositTargets_satisfied_iff {self : BuiltFakeDepositTx}
    (hm : AccountStateTree.Mirrors perm accin.ast ds) (hconsume : accin.consumeAuth = .default)
    (hin : AccountTarget.setWitness perm accin = .ok tin)
    (hout : AccountTarget.setWitness perm accin.cloneWithIncrementedNonce = .ok tout) :
    (depositTargets perm self accin ds sigs tin tout).Satisfied perm ↔
      sigs.consume.Satisfied perm ((depositTargets perm self accin ds sigs tin tout).txHash perm)
          DEFAULT_ACC_COMM_CONSUME_PK_PLACEHOLDER 0 ∧
        sigs.approval.Satisfied perm ((depositTargets perm self accin ds sigs tin tout).txHash perm)
          dummyKey 0 := by
  have hkey : tin.consumeAuth.pk = DEFAULT_ACC_COMM_CONSUME_PK_PLACEHOLDER := by
    rw [setWitness_eq hm.root] at hin
    rw [← Except.ok.inj hin]
    exact congrArg ConsumeAuth.pkOrDefault hconsume
  have hflag : Circuit.and tin.consumeAuth.config (boolTarget false) = 0 := mul_zero _
  have hallocated := Spend.setWitness_allocated hin
  have hallocated' := Spend.setWitness_allocated hout
  have hentry := Noteless.default_entry hm
  have hsum := @U256AdditionChain.generate_add (amountOrNext accin.ast 0).2
    (defaultForRecipient (accin.address perm)).amount (amountOrNext accin.ast 0).2 (by rw [hentry]; rfl)
  constructor
  · intro h
    have hc := h.consume
    rw [show (depositTargets perm self accin ds sigs tin tout).accin = tin from rfl, hkey,
      show (depositTargets perm self accin ds sigs tin tout).notFakeTx = boolTarget false from rfl,
      hflag] at hc
    exact ⟨hc, h.approval⟩
  · rintro ⟨hc, ha⟩
    rw [← hkey, ← hflag] at hc
    rw [setWitness_eq hm.root] at hin
    have hout' := (@setWitness_eq perm accin.cloneWithIncrementedNonce _ hm.root).symm.trans hout
    have hopens := Noteless.default_opens hm
    obtain rfl := Except.ok.inj hin
    obtain rfl := Except.ok.inj hout'
    exact {
      allocated := {
        not_fake_tx := isBool_boolTarget false
        accin := hallocated
        accout := hallocated'
        asset_exists_in_accin := isBool_boolTarget _
        asset_exists_in_accout := isBool_boolTarget _ }
      asset_id := rfl
      act := ⟨pathTarget_satisfied _ _, condHashEq_zero _ _⟩
      recipient_subpool := rfl
      recipient := rfl
      invariants := ⟨rfl, rfl, rfl, rfl, rfl, rfl⟩
      ast := ⟨hopens, hopens⟩
      sum := hsum.1
      balance := hsum.2
      subpool := ⟨pathTarget_satisfied _ _, condHashEq_zero _ _⟩
      consume := hc
      approval := ha }

end Deposit

/-- A fake deposit of nothing satisfies the circuit of deposits for any two roots. -/
theorem fake_deposit_provable (perm : State → State) (stateRoot mainpoolConfigRoot : HashOut) : ∃ dtx,
    ((⟨stateRoot, mainpoolConfigRoot⟩ : FakeDepositTxBuilder).build).intoDepositTx perm = .ok dtx ∧
      (∀ sigs, ∃ w, dtx.setWitness perm sigs = .ok w ∧ w.stateRoot = stateRoot ∧
        w.mainpoolConfigRoot = mainpoolConfigRoot ∧ w.notFakeTx = 0 ∧
        dtx.accin.nullifier perm = .ok (w.accinNull perm) ∧
        dtx.accout.commitment perm = .ok (w.accoutComm perm) ∧
        (w.Satisfied perm ↔
          sigs.consume.Satisfied perm (w.txHash perm) DEFAULT_ACC_COMM_CONSUME_PK_PLACEHOLDER 0 ∧
          sigs.approval.Satisfied perm (w.txHash perm) dummyKey 0)) ∧
      ∃ sigs w, dtx.setWitness perm sigs = .ok w ∧ w.Satisfied perm := by
  obtain ⟨accin, haccin, hnew, hspend, hconsume⟩ := fakeAccount_ok perm
  obtain ⟨ds, hm⟩ : ∃ ds, AccountStateTree.Mirrors perm accin.ast ds := ⟨_, AccountStateTree.new_eq_ok hnew⟩
  obtain ⟨tin, hin⟩ : ∃ tin, AccountTarget.setWitness perm accin = .ok tin := ⟨_, setWitness_eq hm.root⟩
  obtain ⟨tout, hout⟩ : ∃ tout, AccountTarget.setWitness perm accin.cloneWithIncrementedNonce = .ok tout :=
    ⟨_, setWitness_eq (show _ = Except.ok _ from hm.root)⟩
  have hwritten {sigs} := @depositTx_setWitness perm accin ds sigs tin tout
    ⟨stateRoot, mainpoolConfigRoot⟩ hm hin hout
  have hsatisfied {sigs} := @depositTargets_satisfied_iff perm accin ds sigs tin tout
    ⟨stateRoot, mainpoolConfigRoot⟩ hm hconsume hin hout
  have hregular : accin.consumeAuth.Regular := by
    rw [hconsume]
    exact ⟨fun hown => absurd hown Bool.false_ne_true, fun _ => .inl rfl⟩
  have hnull := (regular_digests hregular hin).2.1
  have hcomm := (@regular_digests perm accin.cloneWithIncrementedNonce tout hregular hout).1
  refine ⟨_, bind_eq_ok.mpr ⟨accin, haccin, rfl⟩,
    fun sigs => ⟨_, hwritten, rfl, rfl, rfl, hnull, hcomm, hsatisfied⟩, ?_⟩
  obtain ⟨sigs, hidle⟩ := exists_idle perm ((depositTargets perm ⟨stateRoot, mainpoolConfigRoot⟩ accin ds
    ⟨honestTargets, honestTargets⟩ tin tout).txHash perm)
  exact ⟨⟨sigs.consume, sigs.approval⟩, _, hwritten, hsatisfied.mpr ⟨hidle.consume, hidle.approval⟩⟩

end Doxa.Client.FakeTx
