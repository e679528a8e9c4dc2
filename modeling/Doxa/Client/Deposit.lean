import Doxa.Circuit.Soundness
import Doxa.Client.SpendSigning
import Doxa.Client.Withdraw

/-!
# Deposits from the note to the circuit

`new` takes an account that is initialised and a note for it, and `build` credits the amount to the
asset of the note. Both additions of the two amounts panic past 256 bits, and the asset tree and the
digests are unwrapped (`deposit_build_iff`). What is signed and attached is written into the
targets by `prove`, which computes the new amount once more. A built deposit satisfies all of the
circuit exactly if the subpool is in the main pool, both signatures are of its hash and the consume
key is regular, up to collisions (`deposit_provable_iff`).
-/

namespace Doxa.Client.Deposit

open Lib Circuit Trees
open AccountStateTree (Mirrors)
open Spend (SubpoolFullProof TxSignError amountOrNext boolTarget checkKey isBool_boolTarget merkleTarget
  stateRoot stateTree_pos)
open StateSync (pathTarget pathTarget_satisfied pathTarget_proofOf_root)
open Contract (U256)

/-! ## The builder -/

inductive DepositTxBuilderError
  | accountNotInitialized
  | recipientMismatch
  | approvalSignRequired
  | consumeSignRequired
  | accountPathNotSet
  | subpoolProofNotSet
  deriving DecidableEq

structure DepositTxBuilder where
  accin : StandardAccount
  depositNote : DepositNote
  ethAddress : H160

structure BuiltRealDepositTx where
  accin : StandardAccount
  accout : StandardAccount
  depositNote : DepositNote
  ethAddress : H160
  txHash : HashOut
  consumeSig : Option Signature
  approvalSig : Option Signature
  accinProof : Option (MerkleProof HashOut)
  subpoolProof : Option SubpoolFullProof

structure BuiltDepositTx where
  notFakeTx : Bool
  accin : StandardAccount
  accout : StandardAccount
  depositNote : DepositNote
  ethAddress : H160
  txHash : HashOut
  approvalKey : CompressedPublicKey
  stateRoot : HashOut
  mainPoolRoot : HashOut
  accinActMerkleProof : MerkleProof HashOut
  subpoolProof : SubpoolFullProof
  consumeSig : Option Signature
  approvalSig : Option Signature

/-- `+` of two amounts, which panics past 256 bits. -/
def addAmounts (a b : U256) : Except Failure U256 :=
  if a.toNat + b.toNat < 2 ^ 256 then .ok (a + b) else .error .panic

def okOr {α : Type} (e : DepositTxBuilderError) : Option α → Except DepositTxBuilderError α
  | some a => .ok a
  | none => .error e

variable (perm : State → State)

namespace DepositTxBuilder

def new (accin : StandardAccount) (depositNote : DepositNote) (ethAddress : H160) :
    Except DepositTxBuilderError DepositTxBuilder := do
  revertIf (accin.nonce = 0) .accountNotInitialized
  revertIf (depositNote.recipient ≠ accin.address perm) .recipientMismatch
  return ⟨accin, depositNote, ethAddress⟩

def build (self : DepositTxBuilder) : Except Failure BuiltRealDepositTx := do
  let accinAmt := self.accin.ast.balance self.depositNote.assetId
  let accoutAmt ← addAmounts accinAmt self.depositNote.amount
  let updated ← self.accin.ast.insertOrUpdateAsset perm self.depositNote.assetId accoutAmt
  let accout := { self.accin.cloneWithIncrementedNonce with ast := updated.1 }
  let txHash ← depositTxHash perm self.accin accout self.depositNote self.ethAddress
  return {
    accin := self.accin
    accout := accout
    depositNote := self.depositNote
    ethAddress := self.ethAddress
    txHash := txHash
    consumeSig := none
    approvalSig := none
    accinProof := none
    subpoolProof := none }

end DepositTxBuilder

namespace BuiltRealDepositTx

variable (schnorrSign : Scalar → HashOut → Signature) (self : BuiltRealDepositTx)

/-- `consume_sign`; its errors are three of those of a spend. -/
def consumeSign (consumeSk : Scalar) : Except TxSignError BuiltRealDepositTx := do
  revertIf (!self.accin.consumeAuth.config) .consumeDelegated
  checkKey "consume" .consumeKeyNotSet self.accin.consumeAuth.pk consumeSk
  return { self with consumeSig := some (schnorrSign consumeSk self.txHash) }

def approvalSign (approvalSk : Scalar) : BuiltRealDepositTx :=
  { self with approvalSig := some (schnorrSign approvalSk self.txHash) }

def withAccountPath (accinProof : MerkleProof HashOut) : BuiltRealDepositTx :=
  { self with accinProof := some accinProof }

def withSubpoolProof (subpoolProof : SubpoolFullProof) : BuiltRealDepositTx :=
  { self with subpoolProof := some subpoolProof }

/-- The fields of the unified transaction. -/
def depositTx (accinActMerkleProof : MerkleProof HashOut) (subpoolProof : SubpoolFullProof)
    (approvalSig : Signature) : BuiltDepositTx where
  notFakeTx := true
  accin := self.accin
  accout := self.accout
  depositNote := self.depositNote
  ethAddress := self.ethAddress
  txHash := self.txHash
  approvalKey := subpoolProof.approvalKey
  stateRoot := accinActMerkleProof.root
  mainPoolRoot := subpoolProof.mainPoolProof.root
  accinActMerkleProof := accinActMerkleProof
  subpoolProof := subpoolProof
  consumeSig := self.consumeSig
  approvalSig := some approvalSig

def intoDepositTx : Except DepositTxBuilderError BuiltDepositTx := do
  let approvalSig ← okOr .approvalSignRequired self.approvalSig
  revertIf (self.accin.consumeAuth.config && self.consumeSig.isNone) .consumeSignRequired
  let accinActMerkleProof ← okOr .accountPathNotSet self.accinProof
  let subpoolProof ← okOr .subpoolProofNotSet self.subpoolProof
  return self.depositTx accinActMerkleProof subpoolProof approvalSig

end BuiltRealDepositTx

/-! ## Writing the targets -/

structure DepositTxSignatureTargets where
  consume : SchnorrTargets
  approval : SchnorrTargets

/-- The targets that `prove` writes, and those of the addition chain as its generators fill them. -/
def BuiltDepositTx.setWitness (sigs : DepositTxSignatureTargets) (self : BuiltDepositTx) :
    Except Failure DepositTxTargets := do
  let assetId := self.depositNote.assetId
  let entry := amountOrNext self.accin.ast assetId
  let accoutAmt ← addAmounts entry.2 self.depositNote.amount
  let accinActMerkle ← merkleTarget STATE_TREE_DEPTH self.accinActMerkleProof
  let astProof ← self.accin.ast.merkleProofAt perm entry.1
  let accinAstMerkle ← merkleTarget ACC_AST_DEPTH astProof
  let mainPoolProof ← merkleTarget MAIN_POOL_CONFIG_DEPTH self.subpoolProof.mainPoolProof
  let accin ← AccountTarget.setWitness perm self.accin
  let accout ← AccountTarget.setWitness perm self.accout
  return {
    notFakeTx := boolTarget self.notFakeTx
    approvalKey := self.approvalKey
    stateRoot := self.stateRoot
    mainpoolConfigRoot := self.mainPoolRoot
    accin := accin
    accout := accout
    assetId := assetId
    accinAmt := U256Target.set entry.2
    accoutAmt := U256Target.set accoutAmt
    assetExistsInAccin := boolTarget (self.accin.ast.amountFor assetId).isSome
    assetExistsInAccout := boolTarget (self.accout.ast.amountFor assetId).isSome
    depositNote := DepositNoteTarget.set self.depositNote
    ethAddress := mapH160ToF self.ethAddress
    accinActMerkle := accinActMerkle
    accinAstMerkle := accinAstMerkle
    sum := U256AdditionChain.generate (U256Target.set entry.2) ![U256Target.set self.depositNote.amount]
    mainPoolProof := mainPoolProof
    consume := sigs.consume
    approval := sigs.approval }

/-! ## When a deposit is built -/

variable {perm}

section Build

variable {accin : StandardAccount} {note : DepositNote} {ethAddress : H160} {b : DepositTxBuilder}
  {tx : BuiltRealDepositTx}

theorem new_eq_ok (h : DepositTxBuilder.new perm accin note ethAddress = .ok b) :
    accin.nonce ≠ 0 ∧ note.recipient = accin.address perm ∧ b = ⟨accin, note, ethAddress⟩ := by
  obtain ⟨hnonce, h⟩ := revertIf_bind_eq_ok.mp h
  obtain ⟨hrecipient, h⟩ := revertIf_bind_eq_ok.mp h
  exact ⟨hnonce, not_not.mp hrecipient, (pure_eq_ok.mp h).symm⟩

theorem addAmounts_eq_ok {a b s : U256} :
    addAmounts a b = .ok s ↔ a.toNat + b.toNat < 2 ^ 256 ∧ s.toNat = a.toNat + b.toNat := by
  unfold addAmounts
  split
  · rename_i hfits
    have hsum : (a + b).toNat = a.toNat + b.toNat := by
      rw [BitVec.toNat_add, Nat.mod_eq_of_lt hfits]
    rw [Except.ok.injEq, and_iff_right hfits, ← hsum, eq_comm, BitVec.toNat_inj]
  · rename_i hover
    exact iff_of_false (fun h => by cases h) fun h => hover h.1

/-- What a built deposit holds. -/
structure Built (perm : State → State) (b : DepositTxBuilder) (tx : BuiltRealDepositTx) : Prop where
  account : tx.accin = b.accin
  note : tx.depositNote = b.depositNote
  eth_address : tx.ethAddress = b.ethAddress
  credit : ∃ newBal ast' prev,
    addAmounts (b.accin.ast.balance b.depositNote.assetId) b.depositNote.amount = .ok newBal ∧
      b.accin.ast.insertOrUpdateAsset perm b.depositNote.assetId newBal = .ok (ast', prev) ∧
      tx.accout = { b.accin.cloneWithIncrementedNonce with ast := ast' }
  hash : depositTxHash perm tx.accin tx.accout tx.depositNote tx.ethAddress = .ok tx.txHash

theorem build_eq_ok (h : b.build perm = .ok tx) : Built perm b tx := by
  obtain ⟨newBal, hnewBal, h⟩ := bind_eq_ok.mp h
  obtain ⟨⟨ast', prev⟩, hupdate, h⟩ := bind_eq_ok.mp h
  obtain ⟨txHash, hhash, h⟩ := bind_eq_ok.mp h
  rw [← pure_eq_ok.mp h]
  exact ⟨rfl, rfl, rfl, ⟨newBal, ast', prev, hnewBal, hupdate, rfl⟩, hhash⟩

theorem depositTxHash_iff {acc acc' : StandardAccount} (hin : ∃ r, acc.ast.root perm = .ok r)
    (hout : ∃ r, acc'.ast.root perm = .ok r) (hkey : acc'.consumeAuth = acc.consumeAuth) :
    (∃ h, depositTxHash perm acc acc' note ethAddress = .ok h) ↔ acc.consumeAuth.KeySet := by
  constructor
  · rintro ⟨h, hhash⟩
    obtain ⟨n, hn, -⟩ := bind_eq_ok.mp hhash
    exact (nullifier_iff hin).mp ⟨n, hn⟩
  · intro hset
    obtain ⟨n, hn⟩ := (nullifier_iff hin).mpr hset
    obtain ⟨c, hc⟩ := (commitment_iff hout).mpr (hkey ▸ hset)
    exact ⟨_, bind_eq_ok.mpr ⟨n, hn, bind_eq_ok.mpr ⟨c, hc, rfl⟩⟩⟩

end Build

/-- A deposit is built exactly if the new balance fits, the asset tree takes the asset and a consume
key is stored where it is needed. -/
theorem build_iff {ds : List HashOut} {b : DepositTxBuilder} (hm : Mirrors perm b.accin.ast ds) :
    (∃ tx, b.build perm = .ok tx) ↔
      (b.accin.ast.balance b.depositNote.assetId).toNat + b.depositNote.amount.toNat < 2 ^ 256 ∧
        (b.depositNote.assetId ≠ 0 ∧ (b.depositNote.assetId ∈ b.accin.ast.assets ∨
          ds.length < 2 ^ ACC_AST_DEPTH)) ∧ b.accin.consumeAuth.KeySet := by
  have hroots : ∀ {newBal ast' prev},
      b.accin.ast.insertOrUpdateAsset perm b.depositNote.assetId newBal = .ok (ast', prev) →
      ((∃ h, depositTxHash perm b.accin { b.accin.cloneWithIncrementedNonce with ast := ast' } b.depositNote
        b.ethAddress = .ok h) ↔ b.accin.consumeAuth.KeySet) := by
    intro newBal ast' prev hupdate
    obtain ⟨i, ds', -, -, -, -, hm', -⟩ := hm.insertOrUpdateAsset hupdate
    exact depositTxHash_iff ⟨_, hm.root⟩ ⟨_, hm'.root⟩ rfl
  constructor
  · rintro ⟨tx, h⟩
    have htx := build_eq_ok h
    obtain ⟨newBal, ast', prev, hnewBal, hupdate, haccout⟩ := htx.credit
    have hhash := htx.hash
    rw [htx.account, haccout, htx.note, htx.eth_address] at hhash
    exact ⟨(addAmounts_eq_ok.mp hnewBal).1, hm.insertOrUpdateAsset_iff.mp ⟨_, hupdate⟩,
      (hroots hupdate).mp ⟨_, hhash⟩⟩
  · rintro ⟨hfits, hasset, hset⟩
    obtain ⟨newBal, hnewBal⟩ : ∃ newBal, addAmounts (b.accin.ast.balance b.depositNote.assetId)
        b.depositNote.amount = .ok newBal := ⟨_, if_pos hfits⟩
    obtain ⟨⟨ast', prev⟩, hupdate⟩ := (@Mirrors.insertOrUpdateAsset_iff perm b.accin.ast ds
      b.depositNote.assetId newBal hm).mpr hasset
    obtain ⟨txHash, hhash⟩ := (hroots hupdate).mpr hset
    exact ⟨_, bind_eq_ok.mpr ⟨newBal, hnewBal, bind_eq_ok.mpr ⟨_, hupdate,
      bind_eq_ok.mpr ⟨txHash, hhash, rfl⟩⟩⟩⟩

/-! ## What is written -/

/-- What is attached to a built deposit. -/
structure Attached where
  accinProof : MerkleProof HashOut
  subpoolProof : SubpoolFullProof
  consumeSig : Option Signature
  approvalSig : Option Signature

def BuiltRealDepositTx.attach (self : BuiltRealDepositTx) (a : Attached) : BuiltRealDepositTx :=
  { (self.withAccountPath a.accinProof).withSubpoolProof a.subpoolProof with
    consumeSig := a.consumeSig
    approvalSig := a.approvalSig }

/-- `consume_sign` takes the account's own key, exactly if the account consumes itself. -/
theorem consumeSign_iff {schnorrSign : Scalar → HashOut → Signature} {tx tx' : BuiltRealDepositTx}
    {sk : Scalar} {pk : CompressedPublicKey} (hkey : tx.accin.consumeAuth.pk = some pk)
    (hsk : Spend.publicKey sk = .ok pk) : tx.consumeSign schnorrSign sk = .ok tx' ↔
      tx.accin.consumeAuth.config = true ∧ { tx with consumeSig := some (schnorrSign sk tx.txHash) } = tx' := by
  rw [BuiltRealDepositTx.consumeSign, hkey, Spend.checkKey_own hsk, ok_bind]
  simp only [revertIf_bind_eq_ok, pure_eq_ok, Bool.not_eq_true', Bool.not_eq_false]

/-- The calls attach. -/
theorem calls_eq_attach {schnorrSign : Scalar → HashOut → Signature} {tx tx' : BuiltRealDepositTx}
    {sk : Scalar} {pk : CompressedPublicKey} (hkey : tx.accin.consumeAuth.pk = some pk)
    (hsk : Spend.publicKey sk = .ok pk) (h : tx.consumeSign schnorrSign sk = .ok tx') (approvalSk : Scalar)
    (accinProof : MerkleProof HashOut) (subpoolProof : SubpoolFullProof) :
    ((tx'.approvalSign schnorrSign approvalSk).withAccountPath accinProof).withSubpoolProof subpoolProof =
      tx.attach ⟨accinProof, subpoolProof, some (schnorrSign sk tx.txHash),
        some (schnorrSign approvalSk tx.txHash)⟩ := by
  obtain ⟨-, rfl⟩ := (consumeSign_iff hkey hsk).mp h
  rfl

/-- The proof of the account is that of the tree `t`, and the required signatures are there. -/
structure ProvedIn (perm : State → State) (t : MerkleTree HashOut) (tx : BuiltRealDepositTx)
    (a : Attached) : Prop where
  account : ∃ pos c, tx.accin.commitment perm = .ok c ∧ t.leaves[pos]? = some c ∧
    t.merkleProof (hashOutput perm) pos = .ok a.accinProof
  subpool : a.subpoolProof.mainPoolProof.siblings.length = MAIN_POOL_CONFIG_DEPTH
  consume : tx.accin.consumeAuth.config = true → a.consumeSig ≠ none
  approval : a.approvalSig ≠ none

/-- The path targets of the account and of the subpool. -/
def Attached.actPath (a : Attached) : MerkleRootTarget STATE_TREE_DEPTH :=
  pathTarget STATE_TREE_DEPTH a.accinProof.siblings a.accinProof.path

def Attached.mainPath (a : Attached) : MerkleRootTarget MAIN_POOL_CONFIG_DEPTH :=
  pathTarget MAIN_POOL_CONFIG_DEPTH a.subpoolProof.mainPoolProof.siblings a.subpoolProof.mainPoolProof.path

/-- The written targets. -/
structure Written (perm : State → State) (sigs : DepositTxSignatureTargets) (tx : BuiltRealDepositTx)
    (a : Attached) (w : DepositTxTargets) : Prop where
  holds : w.Holds perm tx.accin tx.accout tx.depositNote tx.ethAddress
  not_fake_tx : w.notFakeTx = 1
  approval_key : w.approvalKey = a.subpoolProof.approvalKey
  state_root : w.stateRoot = a.accinProof.root
  main_pool_root : w.mainpoolConfigRoot = a.subpoolProof.mainPoolProof.root
  asset_id : w.assetId = tx.depositNote.assetId
  exists_accin : IsBool w.assetExistsInAccin
  exists_accout : IsBool w.assetExistsInAccout
  act : w.accinActMerkle = a.actPath
  main_pool : w.mainPoolProof = a.mainPath
  ast : AssertAstUpdate perm w.accinAstMerkle w.assetId w.accinAmt w.accoutAmt w.accin.accAstRoot
    w.accout.accAstRoot w.assetExistsInAccin w.assetExistsInAccout
  sum : w.sum.Satisfied w.accinAmt ![w.depositNote.amount] ∧ w.sum.result = w.accoutAmt
  consume : w.consume = sigs.consume
  approval : w.approval = sigs.approval

section Witness

variable {b : DepositTxBuilder} {tx : BuiltRealDepositTx} {a : Attached} {t : MerkleTree HashOut}
  {ds : List HashOut} {w : DepositTxTargets}

theorem balance_eq (ast : AccountStateTree) (assetId : F) :
    (amountOrNext ast assetId).2 = ast.balance assetId := by
  rw [amountOrNext, AccountStateTree.balance]
  cases ast.amountFor assetId with
  | none => rfl
  | some entry => rfl

theorem intoDepositTx_attach (hproved : ProvedIn perm t tx a) : ∃ approvalSig,
    (tx.attach a).intoDepositTx =
      .ok ((tx.attach a).depositTx a.accinProof a.subpoolProof approvalSig) := by
  obtain ⟨approvalSig, happroval⟩ := Option.ne_none_iff_exists'.mp hproved.approval
  have hconsume : ¬ (tx.accin.consumeAuth.config && a.consumeSig.isNone) = true := by
    rw [Bool.and_eq_true, Option.isNone_iff_eq_none]
    exact fun h => hproved.consume h.1 h.2
  have hsigned : okOr .approvalSignRequired (tx.attach a).approvalSig = .ok approvalSig := by
    show okOr _ a.approvalSig = _
    rw [happroval]
    rfl
  exact ⟨approvalSig, bind_eq_ok.mpr ⟨approvalSig, hsigned, revertIf_bind_eq_ok.mpr ⟨hconsume,
    bind_eq_ok.mpr ⟨a.accinProof, rfl, bind_eq_ok.mpr ⟨a.subpoolProof, rfl, rfl⟩⟩⟩⟩⟩

/-- A built deposit with its proofs is written. -/
theorem Built.written (htx : Built perm b tx) (hm : Mirrors perm tx.accin.ast ds)
    {leaves : List HashOut} (ht : Represents (hashOutput perm) STATE_TREE_DEPTH leaves t)
    (hlen : leaves.length ≤ 2 ^ STATE_TREE_DEPTH) (hproved : ProvedIn perm t tx a)
    (sigs : DepositTxSignatureTargets) (approvalSig : Signature) : ∃ w,
      ((tx.attach a).depositTx a.accinProof a.subpoolProof approvalSig).setWitness perm sigs = .ok w ∧
        Written perm sigs tx a w := by
  obtain ⟨newBal, ast', prev, hnewBal, hupdate, hout⟩ := htx.credit
  rw [← htx.note, ← htx.account] at hnewBal hupdate
  obtain ⟨i, r, r', hi, -, hr, hr', hast⟩ := Spend.assertAstUpdate_of_insert hm hupdate
  have hastOut : tx.accout.ast = ast' := by rw [hout]
  rw [← hastOut] at hr' hast
  have hin := setWitness_eq hr
  have hout' := setWitness_eq hr'
  obtain ⟨pos, c, -, -, haccproof⟩ := hproved.account
  rw [merkleProof_represents ht stateTree_pos hlen] at haccproof
  have hact : merkleTarget STATE_TREE_DEPTH a.accinProof = .ok a.actPath := by
    rw [Attached.actPath, ← Except.ok.inj haccproof]
    exact Spend.merkleTarget_proofOf _ _ _
  have hmain : merkleTarget MAIN_POOL_CONFIG_DEPTH a.subpoolProof.mainPoolProof = .ok a.mainPath :=
    Spend.merkleTarget_iff.mpr ⟨hproved.subpool, rfl⟩
  have hastproof : tx.accin.ast.merkleProofAt perm (amountOrNext tx.accin.ast tx.depositNote.assetId).1 =
      .ok (proofOf (hashOutput perm) ACC_AST_DEPTH ds i) := by
    rw [hi]
    exact hm.merkleProofAt i
  rw [← balance_eq] at hnewBal
  have hsum := U256AdditionChain.generate_add (addAmounts_eq_ok.mp hnewBal).2.symm
  refine ⟨_, bind_eq_ok.mpr ⟨newBal, hnewBal, bind_eq_ok.mpr ⟨_, hact, bind_eq_ok.mpr ⟨_, hastproof,
    bind_eq_ok.mpr ⟨_, Spend.merkleTarget_proofOf _ _ _, bind_eq_ok.mpr ⟨_, hmain,
      bind_eq_ok.mpr ⟨_, hin, bind_eq_ok.mpr ⟨_, hout', rfl⟩⟩⟩⟩⟩⟩⟩, ?_⟩
  exact {
    holds := ⟨hin, hout', rfl, rfl⟩
    not_fake_tx := rfl
    approval_key := rfl
    state_root := rfl
    main_pool_root := rfl
    asset_id := rfl
    exists_accin := isBool_boolTarget _
    exists_accout := isBool_boolTarget _
    act := rfl
    main_pool := rfl
    ast := hast
    sum := hsum
    consume := rfl
    approval := rfl }

end Witness

/-! ## When a deposit is proven -/

/-- The witness is written, the digests set from the client's values are those the circuit derives,
and the constraints hold. -/
def Provable (perm : State → State) (sigs : DepositTxSignatureTargets) (tx : BuiltRealDepositTx) : Prop :=
  ∃ dtx w, tx.intoDepositTx = .ok dtx ∧ dtx.setWitness perm sigs = .ok w ∧
    dtx.accin.nullifier perm = .ok (w.accinNull perm) ∧
    dtx.accout.commitment perm = .ok (w.accoutComm perm) ∧ w.Satisfied perm

/-- The subpool with its approval key is in the main pool, and the signature targets check the hash
of the deposit. -/
structure Authorized (perm : State → State) (sigs : DepositTxSignatureTargets) (tx : BuiltRealDepositTx)
    (a : Attached) : Prop where
  subpool : AssertSubpoolFullProof perm a.mainPath tx.accin.subpoolId a.subpoolProof.approvalKey
    a.subpoolProof.mainPoolProof.root 1
  consume : sigs.consume.Satisfied perm tx.txHash tx.accin.consumeAuth.pkOrDefault
    (boolTarget tx.accin.consumeAuth.config)
  approval : sigs.approval.Satisfied perm tx.txHash a.subpoolProof.approvalKey 1

/-- The path of the account also opens to what the circuit derives for it. -/
def PathClash (perm : State → State) (tx : BuiltRealDepositTx) (a : Attached) : Prop :=
  ∃ target, AccountTarget.setWitness perm tx.accin = .ok target ∧
    a.actPath.root perm (deriveAccountCommitment perm target) = a.accinProof.root

/-- An irregular account has the digests of the circuit only by collisions. -/
def DigestCollision (perm : State → State) (tx : BuiltRealDepositTx) (a : Attached) : Prop :=
  CommitmentCollision perm tx.accout ∧ (CommitmentCollision perm tx.accin ∨
    (Spend.NullifierCollision perm tx.accin ∧ PathClash perm tx a))

section Proven

variable {b : DepositTxBuilder} {tx : BuiltRealDepositTx} {a : Attached} {t : MerkleTree HashOut}
  {ds leaves : List HashOut} {w : DepositTxTargets} {sigs : DepositTxSignatureTargets}

/-- What the witness does not make hold by itself. -/
theorem Written.satisfied_iff (h : Written perm sigs tx a w) (htx : Built perm b tx)
    (hrecipient : tx.depositNote.recipient = tx.accin.address perm) (hhash : w.txHash perm = tx.txHash) :
    w.Satisfied perm ↔ a.actPath.root perm (w.accinComm perm) = a.accinProof.root ∧
      Authorized perm sigs tx a := by
  obtain ⟨r, -, hin⟩ := bind_eq_ok.mp h.holds.accin
  obtain ⟨r', -, hout⟩ := bind_eq_ok.mp h.holds.accout
  have hin := pure_eq_ok.mp hin
  have hout := pure_eq_ok.mp hout
  have hsubpool : w.accin.subpoolId = tx.accin.subpoolId := by rw [← hin]
  have hkey : w.accin.consumeAuth.pk = tx.accin.consumeAuth.pkOrDefault := by
    rw [← hin]
    rfl
  have hflag : and w.accin.consumeAuth.config w.notFakeTx = boolTarget tx.accin.consumeAuth.config := by
    rw [h.not_fake_tx, ← hin]
    exact mul_one _
  have hpath := @pathTarget_satisfied STATE_TREE_DEPTH a.accinProof.siblings a.accinProof.path
  constructor
  · intro hw
    have hact := hw.act.2
    rw [h.act, h.state_root, h.not_fake_tx, condHashEq_one] at hact
    refine ⟨hact, ?_, ?_, ?_⟩
    · have hsub := hw.subpool
      rw [h.main_pool, hsubpool, h.approval_key, h.main_pool_root, h.not_fake_tx] at hsub
      exact hsub
    · have hconsume := hw.consume
      rw [h.consume, hhash, hkey, hflag] at hconsume
      exact hconsume
    · have happroval := hw.approval
      rw [h.approval, hhash, h.approval_key, h.not_fake_tx] at happroval
      exact happroval
  · rintro ⟨hact, hauthorized⟩
    obtain ⟨newBal, ast', prev, -, -, haccout⟩ := htx.credit
    refine {
      allocated := ?_
      asset_id := ?_
      act := ?_
      recipient_subpool := ?_
      recipient := ?_
      invariants := ?_
      ast := h.ast
      sum := h.sum.1
      balance := h.sum.2
      subpool := ?_
      consume := ?_
      approval := ?_ }
    · exact {
        not_fake_tx := isBool_iff.mpr (.inr h.not_fake_tx)
        accin := Spend.setWitness_allocated h.holds.accin
        accout := Spend.setWitness_allocated h.holds.accout
        asset_exists_in_accin := h.exists_accin
        asset_exists_in_accout := h.exists_accout }
    · rw [h.holds.note, h.asset_id]
      rfl
    · rw [h.act, h.state_root, h.not_fake_tx]
      exact ⟨hpath, condHashEq_one.mpr hact⟩
    · rw [h.holds.note, hsubpool]
      exact congrArg AccountAddress.subpoolId hrecipient
    · rw [h.holds.note, DepositTxTargets.publicIdentifier, ← hin]
      exact congrArg AccountAddress.publicId hrecipient
    · rw [← hin, ← hout, haccout, ← htx.account]
      exact ⟨rfl, rfl, rfl, rfl, rfl, rfl⟩
    · rw [h.main_pool, hsubpool, h.approval_key, h.main_pool_root, h.not_fake_tx]
      exact hauthorized.subpool
    · rw [h.consume, hhash, hkey, hflag]
      exact hauthorized.consume
    · rw [h.approval, hhash, h.approval_key, h.not_fake_tx]
      exact hauthorized.approval

/-- The hash of the circuit, once both digests agree. -/
theorem Written.txHash_eq (h : Written perm sigs tx a w) (htx : Built perm b tx)
    (hnull : tx.accin.nullifier perm = .ok (w.accinNull perm))
    (hcomm : tx.accout.commitment perm = .ok (w.accoutComm perm)) : w.txHash perm = tx.txHash := by
  have hhash := htx.hash
  have hnote : w.noteComm perm = tx.depositNote.commitment perm := by
    rw [DepositTxTargets.noteComm, h.holds.note, deriveDepositNoteComm_set]
  rw [depositTxHash, hnull, hcomm, ← hnote] at hhash
  rw [DepositTxTargets.txHash, h.holds.eth_address]
  exact Except.ok.inj hhash

/-- Both digests agree and the account is in the tree, exactly for a regular key, up to
collisions. -/
theorem Written.digests_iff (h : Written perm sigs tx a w) (htx : Built perm b tx)
    (ht : Represents (hashOutput perm) STATE_TREE_DEPTH leaves t)
    (hlen : leaves.length ≤ 2 ^ STATE_TREE_DEPTH) (hproved : ProvedIn perm t tx a) :
    (tx.accin.nullifier perm = .ok (w.accinNull perm) ∧
      tx.accout.commitment perm = .ok (w.accoutComm perm) ∧
      a.actPath.root perm (w.accinComm perm) = a.accinProof.root) ↔
      tx.accin.consumeAuth.Regular ∨ DigestCollision perm tx a := by
  obtain ⟨n, hn, hhash⟩ := bind_eq_ok.mp htx.hash
  obtain ⟨c', hc', -⟩ := bind_eq_ok.mp hhash
  obtain ⟨pos, c, hc, hstored, hproof⟩ := hproved.account
  have hkey : tx.accout.consumeAuth = tx.accin.consumeAuth := by
    obtain ⟨newBal, ast', prev, -, -, haccout⟩ := htx.credit
    rw [haccout, htx.account]
    rfl
  have hnull := Spend.nullifier_agrees_iff h.holds.accin hn
  have hcomm := Spend.commitment_agrees_iff h.holds.accout hc'
  have hcin := Spend.commitment_agrees_iff h.holds.accin hc
  rw [hkey] at hcomm
  -- the stored commitment opens, so an agreeing one does
  have hopens : c = w.accinComm perm → a.actPath.root perm (w.accinComm perm) = a.accinProof.root := by
    intro hagrees
    rw [ht.leaves] at hstored
    have hpos : pos < leaves.length := (List.getElem?_eq_some_iff.mp hstored).1
    rw [merkleProof_represents ht stateTree_pos hlen] at hproof
    rw [Attached.actPath, ← Except.ok.inj hproof, pathTarget_proofOf_root (hpos.trans_le hlen), ← hagrees,
      ← Option.some.inj ((leafOf_getElem? hpos).symm.trans hstored), Function.update_eq_self]
    rfl
  have hclash : PathClash perm tx a ↔ a.actPath.root perm (w.accinComm perm) = a.accinProof.root := by
    constructor
    · rintro ⟨target, htarget, hroot⟩
      rw [← Except.ok.inj (h.holds.accin.symm.trans htarget)] at hroot
      exact hroot
    · exact fun hroot => ⟨_, h.holds.accin, hroot⟩
  rw [hn, hc', Except.ok.injEq, Except.ok.injEq, DigestCollision, hclash]
  rw [show n = w.accinNull perm ↔ _ from hnull, show c' = w.accoutComm perm ↔ _ from hcomm]
  constructor
  · rintro ⟨hin, hout, hact⟩
    rcases hout with hregular | hout
    · exact .inl hregular
    · rcases hin with (hregular | hin) | hin
      · exact .inl hregular
      · exact .inr ⟨hout, .inl hin⟩
      · exact .inr ⟨hout, .inr ⟨hin, hact⟩⟩
  · rintro (hregular | ⟨hout, hin | ⟨hin, hact⟩⟩)
    · exact ⟨.inl (.inl hregular), .inl hregular, hopens (hcin.mpr (.inl hregular))⟩
    · exact ⟨.inl (.inr hin), .inr hout, hopens (hcin.mpr (.inr hin))⟩
    · exact ⟨.inr hin, .inr hout, hact⟩

end Proven

/-! ## A deposit into a new account -/

section Setting

variable {acc : StandardAccount} {amount : U256}

variable (perm) in
/-- A new account after its first transaction, which consumes under its own key. -/
structure Active (acc : StandardAccount) : Prop where
  new : AccountStateTree.new perm = .ok acc.ast
  nonce : acc.nonce ≠ 0
  auth : acc.consumeAuth = ⟨true, some generatorKey⟩

variable (perm) in
theorem exists_active : ∃ acc, Active perm acc := by
  obtain ⟨ast, hnew⟩ := AccountStateTree.new_ok perm
  exact ⟨⟨0, 0, 1, .default, ⟨true, some generatorKey⟩, ast⟩, hnew, one_ne_zero, rfl⟩

variable (perm) in
/-- A note for the account itself. -/
def ownNote (acc : StandardAccount) (amount : U256) : DepositNote where
  identifier := 0
  recipient := acc.address perm
  amount := amount
  assetId := 1

theorem Active.new_ok (h : Active perm acc) (amount : U256) :
    DepositTxBuilder.new perm acc (ownNote perm acc amount) 0 = .ok ⟨acc, ownNote perm acc amount, 0⟩ :=
  revertIf_bind_eq_ok.mpr ⟨h.nonce, revertIf_bind_eq_ok.mpr ⟨not_not.mpr rfl, rfl⟩⟩

theorem Active.keySet (h : Active perm acc) : acc.consumeAuth.KeySet := by
  rw [h.auth]
  exact fun _ => Option.some_ne_none _

theorem Active.fits (h : Active perm acc) (amount : U256) :
    (acc.ast.balance 1).toNat + amount.toNat < 2 ^ 256 := by
  rw [AccountStateTree.balance, Spend.new_amountFor h.new one_ne_zero]
  exact (Nat.zero_add _).trans_lt amount.isLt

theorem Active.room (h : Active perm acc) : acc.ast.tree.numLeaves < 2 ^ ACC_AST_DEPTH := by
  rw [(AccountStateTree.new_eq_ok h.new).numLeaves, List.length_singleton]
  decide

theorem Active.build_ok (h : Active perm acc) (amount : U256) :
    ∃ tx, (⟨acc, ownNote perm acc amount, 0⟩ : DepositTxBuilder).build perm = .ok tx := by
  have hm := AccountStateTree.new_eq_ok h.new
  have hroom := h.room
  rw [hm.numLeaves] at hroom
  exact (build_iff hm).mpr ⟨h.fits amount, ⟨one_ne_zero, .inr hroom⟩, h.keySet⟩

theorem absorb_zeroPerm (blocks : List (List F)) : absorb zeroPerm 0 blocks = 0 := by
  induction blocks with
  | nil => rfl
  | cons block blocks ih => exact ih

theorem hashNoPad_zeroPerm (inputs : List F) : hashNoPad zeroPerm inputs = 0 := by
  rw [hashNoPad, absorb_zeroPerm]
  rfl

theorem node_zeroPerm (f : ℕ → HashOut) {l : ℕ} (hl : 0 < l) (j : ℕ) :
    Lib.node (hashOutput zeroPerm).node f l j = 0 := by
  cases l with
  | zero => exact absurd hl (lt_irrefl 0)
  | succ l =>
    rw [node_succ]
    exact hashNoPad_zeroPerm _

/-- The subpool is in a pool that hashes to zero. -/
def zeroPool (accinProof : MerkleProof HashOut) : Attached where
  accinProof := accinProof
  subpoolProof := ⟨generatorKey, proofOf (hashOutput zeroPerm) MAIN_POOL_CONFIG_DEPTH [] 0⟩
  consumeSig := some ⟨generator, 0⟩
  approvalSig := some ⟨generator, 0⟩

/-- With all hashes zero, the signature of the hash zero authorizes it. -/
theorem authorized_zeroPerm {b : DepositTxBuilder} {tx : BuiltRealDepositTx}
    (htx : Built zeroPerm b tx) (hauth : tx.accin.consumeAuth = ⟨true, some generatorKey⟩)
    (accinProof : MerkleProof HashOut) :
    Authorized zeroPerm ⟨honestTargets, honestTargets⟩ tx (zeroPool accinProof) := by
  have hhash : tx.txHash = 0 := by
    obtain ⟨n, -, hhash⟩ := bind_eq_ok.mp htx.hash
    obtain ⟨c, -, hhash⟩ := bind_eq_ok.mp hhash
    rw [← pure_eq_ok.mp hhash]
    exact hashNoPad_zeroPerm _
  have hdepth : 0 < MAIN_POOL_CONFIG_DEPTH := by decide
  have hroot : (proofOf (hashOutput zeroPerm) MAIN_POOL_CONFIG_DEPTH [] 0).root = 0 :=
    node_zeroPerm ((hashOutput zeroPerm).leafOf []) hdepth 0
  refine ⟨⟨pathTarget_satisfied _ _, condHashEq_one.mpr ?_⟩, ?_, ?_⟩
  · rw [Attached.mainPath, zeroPool, pathTarget_proofOf_root (by decide)]
    exact (node_zeroPerm _ hdepth 0).trans hroot.symm
  · rw [hhash, hauth]
    exact honestTargets_satisfied
  · rw [hhash]
    exact honestTargets_satisfied

end Setting

/-- A note for an initialised account is built exactly if the new balance fits, the asset tree takes
the asset, and the account has a consume key where it consumes itself. -/
theorem deposit_build_iff (perm : State → State) {accin : StandardAccount} {note : DepositNote}
    {ethAddress : H160} {b : DepositTxBuilder} (hast : accin.ast.Reachable perm)
    (hnew : DepositTxBuilder.new perm accin note ethAddress = .ok b) :
    (∃ tx, b.build perm = .ok tx) ↔
      (accin.ast.balance note.assetId).toNat + note.amount.toNat < 2 ^ 256 ∧
        (note.assetId ≠ 0 ∧ (note.assetId ∈ accin.ast.assets ∨
          accin.ast.tree.numLeaves < 2 ^ ACC_AST_DEPTH)) ∧ accin.consumeAuth.KeySet := by
  obtain ⟨ds, hm⟩ := hast.mirrors
  obtain ⟨-, -, rfl⟩ := new_eq_ok hnew
  rw [hm.numLeaves]
  exact @build_iff perm ds ⟨accin, note, ethAddress⟩ hm

/-- Any amount goes into a new account. -/
theorem deposit_build_iff_full : ∃ acc b, acc.ast.Reachable id ∧
    DepositTxBuilder.new id acc (ownNote id acc (BitVec.allOnes 256)) 0 = .ok b ∧
    ∃ tx, b.build id = .ok tx := by
  obtain ⟨acc, hacc⟩ := exists_active id
  refine ⟨acc, _, .new hacc.new, hacc.new_ok _, ?_⟩
  exact (deposit_build_iff id (.new hacc.new) (hacc.new_ok _)).mpr
    ⟨hacc.fits _, ⟨one_ne_zero, .inr hacc.room⟩, hacc.keySet⟩

/-- A built deposit whose account is in the tree satisfies the circuit exactly if it is authorized and
its consume key is regular, up to collisions. -/
theorem deposit_provable_iff (perm : State → State) {accin : StandardAccount} {note : DepositNote}
    {ethAddress : H160} {b : DepositTxBuilder} {tx : BuiltRealDepositTx} {ops : List (TreeOp HashOut)}
    {t₀ t : MerkleTree HashOut} (hast : accin.ast.Reachable perm)
    (hnew : DepositTxBuilder.new perm accin note ethAddress = .ok b) (hbuild : b.build perm = .ok tx)
    (htree : MerkleTree.new (hashOutput perm) STATE_TREE_DEPTH = .ok t₀)
    (hrun : runTree (hashOutput perm) ops t₀ = some t) (a : Attached) (hproved : ProvedIn perm t tx a)
    (sigs : DepositTxSignatureTargets) :
    Provable perm sigs (tx.attach a) ↔
      (accin.consumeAuth.Regular ∨ DigestCollision perm tx a) ∧ Authorized perm sigs tx a := by
  obtain ⟨t₁, hnew₁, hempty⟩ := new_represents (hashOutput perm) stateTree_pos
  obtain rfl := Except.ok.inj (htree.symm.trans hnew₁)
  obtain ⟨ht, hlen⟩ := run_represents (hashOutput_lawful perm) stateTree_pos hempty (Nat.zero_le _) hrun
  obtain ⟨-, hrecipient, rfl⟩ := new_eq_ok hnew
  have htx := build_eq_ok hbuild
  have haccin : tx.accin = accin := htx.account
  obtain ⟨ds, hm⟩ := hast.mirrors
  rw [← haccin] at hm
  have hnote : tx.depositNote.recipient = tx.accin.address perm := by
    rw [htx.note, haccin]
    exact hrecipient
  obtain ⟨approvalSig, hinto⟩ := intoDepositTx_attach hproved
  obtain ⟨w, hw, hwritten⟩ := htx.written hm ht hlen hproved sigs approvalSig
  have hdigests := hwritten.digests_iff htx ht hlen hproved
  rw [haccin] at hdigests
  constructor
  · rintro ⟨dtx, w', hdtx, hw', hnull, hcomm, hsat⟩
    obtain rfl := Except.ok.inj (hinto.symm.trans hdtx)
    obtain rfl := Except.ok.inj (hw.symm.trans hw')
    obtain ⟨hact, hauthorized⟩ :=
      (hwritten.satisfied_iff htx hnote (hwritten.txHash_eq htx hnull hcomm)).mp hsat
    rw [show ((tx.attach a).depositTx a.accinProof a.subpoolProof approvalSig).accin = accin from
      haccin] at hnull
    exact ⟨hdigests.mp ⟨hnull, hcomm, hact⟩, hauthorized⟩
  · rintro ⟨hregular, hauthorized⟩
    obtain ⟨hnull, hcomm, hact⟩ := hdigests.mpr hregular
    rw [← haccin] at hnull
    exact ⟨_, w, hinto, hw, hnull, hcomm,
      (hwritten.satisfied_iff htx hnote (hwritten.txHash_eq htx hnull hcomm)).mpr ⟨hact, hauthorized⟩⟩

/-- Five units for a new account, signed with the key one. -/
theorem deposit_provable_signed : ∃ acc b tx t₀ t ops a sigs, acc.ast.Reachable zeroPerm ∧
    DepositTxBuilder.new zeroPerm acc (ownNote zeroPerm acc (BitVec.ofNat 256 5)) 0 = .ok b ∧
    b.build zeroPerm = .ok tx ∧ MerkleTree.new (hashOutput zeroPerm) STATE_TREE_DEPTH = .ok t₀ ∧
    runTree (hashOutput zeroPerm) ops t₀ = some t ∧ ProvedIn zeroPerm t tx a ∧
    Provable zeroPerm sigs (tx.attach a) := by
  obtain ⟨acc, hacc⟩ := exists_active zeroPerm
  have hast : acc.ast.Reachable zeroPerm := .new hacc.new
  have hnew := hacc.new_ok (BitVec.ofNat 256 5)
  obtain ⟨tx, hbuild⟩ := hacc.build_ok (BitVec.ofNat 256 5)
  have htx := build_eq_ok hbuild
  have haccin : tx.accin = acc := htx.account
  obtain ⟨c, hc⟩ := (commitment_iff hast.root).mpr hacc.keySet
  obtain ⟨t₀, htree, hempty⟩ := new_represents (hashOutput zeroPerm) stateTree_pos
  obtain ⟨t, hrun, ht⟩ := run_insert (hashOutput_lawful zeroPerm) hempty [c]
    (show 0 + 1 ≤ 2 ^ STATE_TREE_DEPTH by decide)
  have hproof := merkleProof_represents ht stateTree_pos
    (show ([c] : List HashOut).length ≤ 2 ^ STATE_TREE_DEPTH from Nat.one_le_two_pow) 0
  have hproved : ProvedIn zeroPerm t tx (zeroPool (proofOf (hashOutput zeroPerm) STATE_TREE_DEPTH [c] 0)) := by
    refine ⟨⟨0, c, ?_, ?_, hproof⟩, ?_, fun _ => Option.some_ne_none _, Option.some_ne_none _⟩
    · rw [haccin]
      exact hc
    · rw [ht.leaves]
      rfl
    · simp [zeroPool, proofOf]
  have hregular : acc.consumeAuth.Regular := by
    rw [hacc.auth]
    exact ⟨fun _ => Option.some_ne_none _, fun h => absurd h.symm Bool.false_ne_true⟩
  refine ⟨acc, _, tx, t₀, t, _, _, ⟨honestTargets, honestTargets⟩, hast, hnew, hbuild, htree, hrun,
    hproved, ?_⟩
  exact (deposit_provable_iff zeroPerm hast hnew hbuild htree hrun _ hproved _).mpr
    ⟨.inl hregular, authorized_zeroPerm htx (by rw [haccin]; exact hacc.auth) _⟩

end Doxa.Client.Deposit
