import Doxa.Circuit.Account
import Doxa.Circuit.Signature
import Doxa.Circuit.U256

/-!
# The private transaction circuit

All targets `priv_tx_circuit` allocates, the values it derives from them, its constraints
step by step and the public inputs it registers. Nothing ties the flags to each other and
nothing ties `inotesPos` to the Merkle paths.
-/

namespace Doxa.Circuit

/-- The targets of `priv_tx_circuit`, public and private. -/
structure TxCircuitTargets where
  notFakeTx : F
  isFreshAcc : F
  isUpdateAuth : F
  isPrivTx : F
  root : HashOut
  mainpoolConfigRoot : HashOut
  approvalKey : PubkeyTarget
  assetId : F
  accinAmt : U256Target
  assetExistsInAccin : F
  accoutAmt : U256Target
  assetExistsInAccout : F
  accin : AccountTarget
  accout : AccountTarget
  accinActMerkle : MerkleRootTarget STATE_TREE_DEPTH
  accinAstMerkle : MerkleRootTarget ACC_AST_DEPTH
  inotes : Fin NOTE_BATCH → StandardNoteTarget
  inotesPos : Fin NOTE_BATCH → F
  inotesIsactive : Fin NOTE_BATCH → F
  onotes : Fin NOTE_BATCH → StandardNoteTarget
  onotesIsactive : Fin NOTE_BATCH → F
  isNotePairRjct : Fin NOTE_BATCH → F
  dinotes : Fin NOTE_BATCH → HashOut
  donotes : Fin NOTE_BATCH → HashOut
  inotesNctMerkle : Fin NOTE_BATCH → MerkleRootTarget STATE_TREE_DEPTH
  lhs : U256AdditionChain
  rhs : U256AdditionChain
  mainPoolProof : MerkleRootTarget MAIN_POOL_CONFIG_DEPTH
  spend : SchnorrTargets
  consume : SchnorrTargets
  approval : SchnorrTargets

/-- The registered public inputs. -/
structure TxCircuitPublicTargets where
  stateRoot : HashOut
  mainpoolConfigRoot : HashOut
  notFakeTx : F
  accinNull : HashOut
  accoutComm : HashOut
  inotesNull : Fin NOTE_BATCH → HashOut
  onotesComm : Fin NOTE_BATCH → HashOut

/-- `_if` with zero on every limb. -/
def maskAmount (isactive : F) (amount : U256Target) : U256Target := fun j =>
  ifElse isactive (amount j) 0

/-- One pair of `assert_reject_note_pairs`. -/
structure AssertRejectNotePair (inote onote : StandardNoteTarget) (isactive rjct : F) : Prop where
  active : CondEq rjct isactive 1
  identifier : ∀ j, CondEq rjct (inote.identifier j) (onote.identifier j)
  amount : ∀ j, CondEq rjct (inote.amount j) (onote.amount j)
  asset_id : CondEq rjct inote.assetId onote.assetId
  recipient_subpool : CondEq rjct inote.sender.subpoolId onote.recipient.subpoolId
  recipient_identifier : ∀ j, CondEq rjct (inote.sender.publicIdentifier j)
    (onote.recipient.publicIdentifier j)
  sender_subpool : CondEq rjct inote.sender.subpoolId onote.sender.subpoolId
  sender_identifier : ∀ j, CondEq rjct (inote.sender.publicIdentifier j)
    (onote.sender.publicIdentifier j)

/-- The `or` of the flags, folded as the circuit does from the first one on. -/
def orAll (f : Fin NOTE_BATCH → F) : F :=
  ((List.ofFn f).tail).foldl (fun acc sel => or sel acc) (f 0)

namespace TxCircuitTargets

variable (perm : State → State) (t : TxCircuitTargets)

/-! ## Derived values -/

def publicIdentifier : HashOut := derivePublicIdentifier perm t.accin.privateIdentifier

def nk : HashOut := deriveNullifierKey perm t.accin.privateIdentifier

def accinComm : HashOut := deriveAccountCommitment perm t.accin

def accoutComm : HashOut := deriveAccountCommitment perm t.accout

def accinNull : HashOut := deriveAccountNullifier perm (t.accinComm perm) (t.nk perm)

def inotesComm (i : Fin NOTE_BATCH) : HashOut := deriveNoteCommitment perm (t.inotes i)

def inotesNull (i : Fin NOTE_BATCH) : HashOut :=
  deriveNoteNullifier perm (t.inotesComm perm i) (t.inotesPos i) (t.nk perm)

def onotesComm (i : Fin NOTE_BATCH) : HashOut := deriveNoteCommitment perm (t.onotes i)

def dinotesNull (i : Fin NOTE_BATCH) : HashOut := doubleHash perm (t.dinotes i)

def donotesComm (i : Fin NOTE_BATCH) : HashOut := doubleHash perm (t.donotes i)

def effectiveInotesNull (i : Fin NOTE_BATCH) : HashOut :=
  ifElseHash (t.inotesIsactive i) (t.inotesNull perm i) (t.dinotesNull perm i)

def derivedOnotesComm (i : Fin NOTE_BATCH) : HashOut :=
  ifElseHash (t.onotesIsactive i) (t.onotesComm perm i) (t.donotesComm perm i)

def txHash : HashOut :=
  deriveTxHash perm (t.effectiveInotesNull perm) (t.derivedOnotesComm perm) (t.accinNull perm)
    (t.accoutComm perm)

def inoteAmts (i : Fin NOTE_BATCH) : U256Target := maskAmount (t.inotesIsactive i) (t.inotes i).amount

def onoteAmts (i : Fin NOTE_BATCH) : U256Target := maskAmount (t.onotesIsactive i) (t.onotes i).amount

def isSpendReq : F := orAll fun i => and (t.onotesIsactive i) (not (t.isNotePairRjct i))

def checkConsumeSig : F :=
  and (and (orAll t.inotesIsactive) (not t.isSpendReq)) t.accin.consumeAuth.config

/-- The public inputs; the output commitments are those of the dummy notes. -/
def publicTargets : TxCircuitPublicTargets where
  stateRoot := t.root
  mainpoolConfigRoot := t.mainpoolConfigRoot
  notFakeTx := t.notFakeTx
  accinNull := t.accinNull perm
  accoutComm := t.accoutComm perm
  inotesNull := t.effectiveInotesNull perm
  onotesComm := t.donotesComm perm

/-! ## Constraints -/

/-- The boolean targets. -/
structure Allocated : Prop where
  not_fake_tx : IsBool t.notFakeTx
  is_fresh_acc : IsBool t.isFreshAcc
  is_update_auth : IsBool t.isUpdateAuth
  is_priv_tx : IsBool t.isPrivTx
  asset_exists_in_accin : IsBool t.assetExistsInAccin
  asset_exists_in_accout : IsBool t.assetExistsInAccout
  accin : t.accin.Allocated
  accout : t.accout.Allocated
  inotes_isactive : ∀ i, IsBool (t.inotesIsactive i)
  onotes_isactive : ∀ i, IsBool (t.onotesIsactive i)
  is_note_pair_rjct : ∀ i, IsBool (t.isNotePairRjct i)

/-- `assert_inotes_valid`. -/
structure AssertInotesValid : Prop where
  membership : ∀ i, (t.inotesNctMerkle i).ConditionalVerify perm (t.inotesComm perm i) t.root
    (t.inotesIsactive i)
  recipient : ∀ i, (t.inotes i).recipient.publicIdentifier = t.publicIdentifier perm
  recipient_subpool : ∀ i, (t.inotes i).recipient.subpoolId = t.accin.subpoolId

/-- `assert_balance_invariant`. -/
structure AssertBalanceInvariant : Prop where
  lhs : t.lhs.Satisfied t.accinAmt t.inoteAmts
  rhs : t.rhs.Satisfied t.accoutAmt t.onoteAmts
  equal : t.lhs.result = t.rhs.result

/-- `assert_tx_signatures`. -/
structure AssertTxSignatures : Prop where
  spend : t.spend.Satisfied perm (t.txHash perm) t.accin.spendAuth t.isSpendReq
  consume : t.consume.Satisfied perm (t.txHash perm) t.accin.consumeAuth.pk t.checkConsumeSig
  approval : t.approval.Satisfied perm (t.txHash perm) t.approvalKey t.notFakeTx

/-- The constraints of `priv_tx_circuit`. -/
structure Satisfied : Prop where
  allocated : t.Allocated
  fresh : AssertFreshAccount t.accin t.isFreshAcc
  invariants : AssertAccountInvariants t.accin t.accout t.isPrivTx
  act : t.accinActMerkle.ConditionalVerify perm (t.accinComm perm) t.root
    (and (not t.isFreshAcc) t.notFakeTx)
  ast : AssertAstUpdate perm t.accinAstMerkle t.assetId t.accinAmt t.accoutAmt t.accin.accAstRoot
    t.accout.accAstRoot t.assetExistsInAccin t.assetExistsInAccout
  reject : ∀ i, AssertRejectNotePair (t.inotes i) (t.onotes i) (t.inotesIsactive i)
    (t.isNotePairRjct i)
  asset_id : ∀ i, (t.inotes i).assetId = t.assetId ∧ (t.onotes i).assetId = t.assetId
  inotes : t.AssertInotesValid perm
  balance : t.AssertBalanceInvariant
  subpool : AssertSubpoolFullProof perm t.mainPoolProof t.accin.subpoolId t.approvalKey
    t.mainpoolConfigRoot t.notFakeTx
  signatures : t.AssertTxSignatures perm

end TxCircuitTargets

end Doxa.Circuit
