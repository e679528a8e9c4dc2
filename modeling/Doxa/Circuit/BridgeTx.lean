import Doxa.Circuit.PrivTx

/-!
# The deposit and withdrawal circuits

The targets, the derived values and the constraints of `deposit_tx_circuit` and
`withdraw_tx_circuit`. A deposit adds the amount of a deposit note to one asset of the
account; a withdrawal updates the asset tree `NOTE_BATCH` times, from one intermediate root
to the next.
-/

namespace Doxa.Circuit

/-! ## Deposits -/

structure DepositNoteTarget where
  identifier : Fin 2 → F
  recipientSubpoolId : F
  recipientPublicId : HashOut
  amount : U256Target
  assetId : F

structure DepositTxTargets where
  notFakeTx : F
  approvalKey : PubkeyTarget
  stateRoot : HashOut
  mainpoolConfigRoot : HashOut
  accin : AccountTarget
  accout : AccountTarget
  assetId : F
  accinAmt : U256Target
  accoutAmt : U256Target
  assetExistsInAccin : F
  assetExistsInAccout : F
  depositNote : DepositNoteTarget
  ethAddress : Fin 5 → F
  accinActMerkle : MerkleRootTarget STATE_TREE_DEPTH
  accinAstMerkle : MerkleRootTarget ACC_AST_DEPTH
  sum : U256AdditionChain
  mainPoolProof : MerkleRootTarget MAIN_POOL_CONFIG_DEPTH
  consume : SchnorrTargets
  approval : SchnorrTargets

/-- The registered public inputs of a deposit. -/
structure DepositTxPublicTargets where
  notFakeTx : F
  mainpoolConfigRoot : HashOut
  stateRoot : HashOut
  accinNull : HashOut
  accoutComm : HashOut
  noteComm : HashOut
  ethAddress : Fin 5 → F
  amount : U256Target
  assetId : F

variable (perm : State → State)

def deriveDepositNoteComm (note : DepositNoteTarget) : HashOut :=
  hashNoPad perm (List.ofFn note.identifier ++ [note.recipientSubpoolId] ++
    List.ofFn note.recipientPublicId ++ List.ofFn note.amount ++ [note.assetId])

def deriveDepositTxHash (accinNull accoutComm noteComm : HashOut) (ethAddress : Fin 5 → F) :
    HashOut :=
  hashNoPad perm (List.ofFn accinNull ++ List.ofFn accoutComm ++ List.ofFn noteComm ++
    List.ofFn ethAddress)

namespace DepositTxTargets

variable (t : DepositTxTargets)

def publicIdentifier : HashOut := derivePublicIdentifier perm t.accin.privateIdentifier

def nk : HashOut := deriveNullifierKey perm t.accin.privateIdentifier

def accinComm : HashOut := deriveAccountCommitment perm t.accin

def accoutComm : HashOut := deriveAccountCommitment perm t.accout

def accinNull : HashOut := deriveAccountNullifier perm (t.accinComm perm) (t.nk perm)

def noteComm : HashOut := deriveDepositNoteComm perm t.depositNote

def txHash : HashOut :=
  deriveDepositTxHash perm (t.accinNull perm) (t.accoutComm perm) (t.noteComm perm) t.ethAddress

def publicTargets : DepositTxPublicTargets where
  notFakeTx := t.notFakeTx
  mainpoolConfigRoot := t.mainpoolConfigRoot
  stateRoot := t.stateRoot
  accinNull := t.accinNull perm
  accoutComm := t.accoutComm perm
  noteComm := t.noteComm perm
  ethAddress := t.ethAddress
  amount := t.depositNote.amount
  assetId := t.assetId

/-- The boolean targets of a deposit. -/
structure Allocated : Prop where
  not_fake_tx : IsBool t.notFakeTx
  accin : t.accin.Allocated
  accout : t.accout.Allocated
  asset_exists_in_accin : IsBool t.assetExistsInAccin
  asset_exists_in_accout : IsBool t.assetExistsInAccout

/-- The constraints of `deposit_tx_circuit`. -/
structure Satisfied : Prop where
  allocated : t.Allocated
  asset_id : t.depositNote.assetId = t.assetId
  act : t.accinActMerkle.ConditionalVerify perm (t.accinComm perm) t.stateRoot t.notFakeTx
  recipient_subpool : t.depositNote.recipientSubpoolId = t.accin.subpoolId
  recipient : t.depositNote.recipientPublicId = t.publicIdentifier perm
  invariants : AssertAccountInvariantsSimple t.accin t.accout
  ast : AssertAstUpdate perm t.accinAstMerkle t.assetId t.accinAmt t.accoutAmt t.accin.accAstRoot
    t.accout.accAstRoot t.assetExistsInAccin t.assetExistsInAccout
  sum : t.sum.Satisfied t.accinAmt ![t.depositNote.amount]
  balance : t.sum.result = t.accoutAmt
  subpool : AssertSubpoolFullProof perm t.mainPoolProof t.accin.subpoolId t.approvalKey
    t.mainpoolConfigRoot t.notFakeTx
  consume : t.consume.Satisfied perm (t.txHash perm) t.accin.consumeAuth.pk
    (and t.accin.consumeAuth.config t.notFakeTx)
  approval : t.approval.Satisfied perm (t.txHash perm) t.approvalKey t.notFakeTx

end DepositTxTargets

/-! ## Withdrawals -/

structure WithdrawTxTargets where
  notFakeTx : F
  approvalKey : PubkeyTarget
  root : HashOut
  mainpoolConfigRoot : HashOut
  accin : AccountTarget
  accout : AccountTarget
  assetIds : Fin NOTE_BATCH → F
  withdrawalAmts : Fin NOTE_BATCH → U256Target
  accinAmts : Fin NOTE_BATCH → U256Target
  accoutAmts : Fin NOTE_BATCH → U256Target
  assetExistsInAccin : Fin NOTE_BATCH → F
  assetExistsInAccout : Fin NOTE_BATCH → F
  wAccAddr : Fin 5 → F
  accinActMerkle : MerkleRootTarget STATE_TREE_DEPTH
  intermediateRoots : Fin (NOTE_BATCH - 1) → HashOut
  rhs : Fin NOTE_BATCH → U256AdditionChain
  astMerkles : Fin NOTE_BATCH → MerkleRootTarget ACC_AST_DEPTH
  mainPoolProof : MerkleRootTarget MAIN_POOL_CONFIG_DEPTH
  approval : SchnorrTargets
  spend : SchnorrTargets

/-- The registered public inputs of a withdrawal. -/
structure WithdrawTxPublicTargets where
  notFakeTx : F
  root : HashOut
  mainpoolConfigRoot : HashOut
  accinNull : HashOut
  accoutComm : HashOut
  assetIds : Fin NOTE_BATCH → F
  withdrawalAmts : Fin NOTE_BATCH → U256Target
  wAccAddr : Fin 5 → F

def deriveWithdrawTxHash (accinNull accoutComm : HashOut) (assetIds : Fin NOTE_BATCH → F)
    (amounts : Fin NOTE_BATCH → U256Target) (wAccAddr : Fin 5 → F) : HashOut :=
  hashNoPad perm (List.ofFn accinNull ++ List.ofFn accoutComm ++ List.ofFn assetIds ++
    (List.ofFn amounts).flatMap List.ofFn ++ List.ofFn wAccAddr)

namespace WithdrawTxTargets

variable (t : WithdrawTxTargets)

def nk : HashOut := deriveNullifierKey perm t.accin.privateIdentifier

def accinComm : HashOut := deriveAccountCommitment perm t.accin

def accoutComm : HashOut := deriveAccountCommitment perm t.accout

def accinNull : HashOut := deriveAccountNullifier perm (t.accinComm perm) (t.nk perm)

def txHash : HashOut :=
  deriveWithdrawTxHash perm (t.accinNull perm) (t.accoutComm perm) t.assetIds t.withdrawalAmts
    t.wAccAddr

/-- The asset root before slot `i`. -/
def prevRoot (i : Fin NOTE_BATCH) : HashOut :=
  if h : 0 < i.val then t.intermediateRoots ⟨i.val - 1, by omega⟩ else t.accin.accAstRoot

/-- The asset root after slot `i`. -/
def currRoot (i : Fin NOTE_BATCH) : HashOut :=
  if h : i.val < NOTE_BATCH - 1 then t.intermediateRoots ⟨i.val, h⟩ else t.accout.accAstRoot

def publicTargets : WithdrawTxPublicTargets where
  notFakeTx := t.notFakeTx
  root := t.root
  mainpoolConfigRoot := t.mainpoolConfigRoot
  accinNull := t.accinNull perm
  accoutComm := t.accoutComm perm
  assetIds := t.assetIds
  withdrawalAmts := t.withdrawalAmts
  wAccAddr := t.wAccAddr

/-- The boolean targets of a withdrawal. -/
structure Allocated : Prop where
  not_fake_tx : IsBool t.notFakeTx
  accin : t.accin.Allocated
  accout : t.accout.Allocated
  asset_exists_in_accin : ∀ i, IsBool (t.assetExistsInAccin i)
  asset_exists_in_accout : ∀ i, IsBool (t.assetExistsInAccout i)

/-- The constraints of `withdraw_tx_circuit`. -/
structure Satisfied : Prop where
  allocated : t.Allocated
  act : t.accinActMerkle.ConditionalVerify perm (t.accinComm perm) t.root t.notFakeTx
  invariants : AssertAccountInvariantsSimple t.accin t.accout
  rhs : ∀ i, (t.rhs i).Satisfied (t.accoutAmts i) ![t.withdrawalAmts i]
  balance : ∀ i, t.accinAmts i = (t.rhs i).result
  ast : ∀ i, AssertAstUpdate perm (t.astMerkles i) (t.assetIds i) (t.accinAmts i) (t.accoutAmts i)
    (t.prevRoot i) (t.currRoot i) (t.assetExistsInAccin i) (t.assetExistsInAccout i)
  subpool : AssertSubpoolFullProof perm t.mainPoolProof t.accin.subpoolId t.approvalKey
    t.mainpoolConfigRoot t.notFakeTx
  approval : t.approval.Satisfied perm (t.txHash perm) t.approvalKey t.notFakeTx
  spend : t.spend.Satisfied perm (t.txHash perm) t.accin.spendAuth t.notFakeTx

end WithdrawTxTargets

end Doxa.Circuit
