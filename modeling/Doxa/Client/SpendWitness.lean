import Doxa.Circuit.AddChain
import Doxa.Circuit.AssetTree
import Doxa.Client.SpendBuilder
import Doxa.Client.Witness
import Doxa.StateSync.Witness

/-!
# The witness of a spend

`into_priv_tx` collects what the circuit needs once the proofs and signatures are attached, and
`set_witness` writes it into the targets. `set_notes_witness` computes the number of dummies
again and checks it against the seeds it got; it also refuses a transaction that leaves no slot
free, which the builder allows. The targets nobody writes are filled by the connections and the
generators: those of a dummy note that are connected to the asset and the account, and the two
addition chains. The targets of the three signature gadgets are parameters.
-/

namespace Doxa.Client.Spend

open Lib Circuit Trees
open StateSync (setWitness pathTarget)
open Contract (U256)

/-! ## The unified transaction -/

structure TxKindFlags where
  isFreshAcc : Bool
  isUpdateAuth : Bool
  isPrivTx : Bool
  notFakeTx : Bool

def TxKindFlags.SPEND : TxKindFlags where
  isFreshAcc := false
  isUpdateAuth := false
  isPrivTx := true
  notFakeTx := true

/-- The transaction ready to be proven. -/
structure BuiltPrivTx where
  txKindFlags : TxKindFlags
  accin : StandardAccount
  accout : StandardAccount
  accinMerkleProof : MerkleProof HashOut
  rejectedInotes : List StandardNote
  rejectedInotesNctProofs : List (MerkleProof HashOut)
  inotes : List StandardNote
  inotesNctProofs : List (MerkleProof HashOut)
  onotes : List StandardNote
  dinotes : List HashOut
  donotes : List HashOut
  txHash : HashOut
  stateRoot : HashOut
  mainpoolConfigRoot : HashOut
  subpoolProof : SubpoolFullProof
  approvalKey : CompressedPublicKey
  spendSig : Option Signature
  consumeSig : Option Signature
  approvalSig : Option Signature

structure RequiredSignatures where
  spend : Bool
  consume : Bool
  approval : Bool

namespace BuiltSpendTx

variable (self : BuiltSpendTx)

def withAccountPath (accinProof : MerkleProof HashOut) : BuiltSpendTx :=
  { self with accinProof := some accinProof }

def withInputNotesPath (inotesProofs : List (MerkleProof HashOut)) : BuiltSpendTx :=
  { self with inotesNctProofs := some inotesProofs }

def withRejectedNotesPath (rejectedProofs : List (MerkleProof HashOut)) : BuiltSpendTx :=
  { self with rejectedInotesNctProofs := some rejectedProofs }

def withSubpoolProof (subpoolProof : SubpoolFullProof) : BuiltSpendTx :=
  { self with subpoolProof := some subpoolProof }

/-- The fields that `spend_sign`, `consume_sign` and `approval_sign` set. -/
def withSignatures (spendSig consumeSig approvalSig : Option Signature) : BuiltSpendTx :=
  { self with spendSig := spendSig, consumeSig := consumeSig, approvalSig := approvalSig }

def requiredSignatures : RequiredSignatures where
  spend := !self.onotes.isEmpty
  consume := !self.inotes.isEmpty && self.onotes.isEmpty && self.accin.consumeAuth.config
  approval := true

/-- The required signatures are attached. -/
structure Signed : Prop where
  spend : self.requiredSignatures.spend = true → self.spendSig ≠ none
  consume : self.requiredSignatures.consume = true → self.consumeSig ≠ none
  approval : self.requiredSignatures.approval = true → self.approvalSig ≠ none

/-- The fields of the unified transaction. -/
def privTx (accinMerkleProof : MerkleProof HashOut)
    (inotesNctProofs rejectedInotesNctProofs : List (MerkleProof HashOut))
    (subpoolProof : SubpoolFullProof) : BuiltPrivTx where
  txKindFlags := .SPEND
  accin := self.accin
  accout := self.accout
  accinMerkleProof := accinMerkleProof
  rejectedInotes := self.rejectedInotes.map Prod.fst
  rejectedInotesNctProofs := rejectedInotesNctProofs
  inotes := self.inotes.map Prod.fst
  inotesNctProofs := inotesNctProofs
  onotes := self.onotes
  dinotes := self.dinotes
  donotes := self.donotes
  txHash := self.txHash
  stateRoot := accinMerkleProof.root
  mainpoolConfigRoot := subpoolProof.mainPoolProof.root
  subpoolProof := subpoolProof
  approvalKey := subpoolProof.approvalKey
  spendSig := self.spendSig
  consumeSig := self.consumeSig
  approvalSig := self.approvalSig

def intoPrivTx : Except SpendTxBuilderError BuiltPrivTx := do
  let accinMerkleProof ← okOr .accountPathNotSet self.accinProof
  let inotesNctProofs ← okOr .notePathsNotSet self.inotesNctProofs
  let rejectedInotesNctProofs ← okOr .notePathsNotSet self.rejectedInotesNctProofs
  let subpoolProof ← okOr .subpoolProofNotSet self.subpoolProof
  return self.privTx accinMerkleProof inotesNctProofs rejectedInotesNctProofs subpoolProof

end BuiltSpendTx

/-! ## Writing the targets -/

/-- The error of `set_witness`; `panic` is a failed `unwrap`, an assertion or an index out of
bounds. -/
inductive PrivTxProveError
  | proofGenerationFailed (message : String)
  | panic
  deriving DecidableEq

def proveOrPanic {α : Type} : Except Failure α → Except PrivTxProveError α
  | .ok a => .ok a
  | .error _ => .error .panic

/-- `set_bool_target`. -/
def boolTarget (b : Bool) : F := if b then 1 else 0

/-- `MerkleRootTarget::set_witness`. -/
def merkleTarget (depth : ℕ) (proof : MerkleProof HashOut) : Except Failure (MerkleRootTarget depth) :=
  match setWitness depth proof with
  | some t => .ok t
  | none => .error .panic

/-- The targets of an input slot. -/
structure InoteTargets where
  note : StandardNoteTarget
  pos : F
  isactive : F
  dinote : HashOut
  nctMerkle : MerkleRootTarget STATE_TREE_DEPTH

/-- The targets of an output slot. -/
structure OnoteTargets where
  note : StandardNoteTarget
  isactive : F
  donote : HashOut

variable (perm : State → State)

/-- `set_dummy_inote`; the recipient is connected to the account and the asset to that of the
transaction. -/
def dummyInote (accin : AccountTarget) (assetId : F) : StandardNoteTarget where
  identifier := 0
  amount := U256Target.set 0
  assetId := assetId
  recipient := ⟨accin.subpoolId, derivePublicIdentifier perm accin.privateIdentifier⟩
  sender := AccountAddressTarget.set .default

/-- `set_dummy_onote`; the asset is connected to that of the transaction. -/
def dummyOnote (assetId : F) : StandardNoteTarget where
  identifier := 0
  amount := U256Target.set 0
  assetId := assetId
  recipient := AccountAddressTarget.set .default
  sender := AccountAddressTarget.set .default

def activeInote (note : StandardNote) (proof : MerkleProof HashOut) : Except Failure InoteTargets := do
  let nctMerkle ← merkleTarget STATE_TREE_DEPTH proof
  return {
    note := StandardNoteTarget.setWitness note
    pos := (proof.pos : F)
    isactive := 1
    dinote := 0
    nctMerkle := nctMerkle }

def activeOnote (note : StandardNote) : OnoteTargets where
  note := StandardNoteTarget.setWitness note
  isactive := 1
  donote := 0

/-- `orElse` of the first notes. -/
def firstAsset (rejected inotes onotes : List StandardNote) : F :=
  match rejected, inotes, onotes with
  | n :: _, _, _ => n.assetId
  | [], n :: _, _ => n.assetId
  | [], [], n :: _ => n.assetId
  | [], [], [] => 0

/-- The targets of `assert_tx_signatures`. -/
structure TxSignatureTargets where
  spend : SchnorrTargets
  consume : SchnorrTargets
  approval : SchnorrTargets

/-- The targets of the notes, all slots. -/
structure NotesTargets where
  inotes : Fin NOTE_BATCH → InoteTargets
  onotes : Fin NOTE_BATCH → OnoteTargets
  isNotePairRjct : Fin NOTE_BATCH → F

/-- The targets of the asset tree. -/
structure AstTargets where
  accinAmt : U256Target
  accoutAmt : U256Target
  assetExistsInAccin : F
  assetExistsInAccout : F
  accinAstMerkle : MerkleRootTarget ACC_AST_DEPTH

namespace BuiltPrivTx

variable (self : BuiltPrivTx)

def inoteTargets (accin : AccountTarget) (assetId : F) (i : ℕ) : Except Failure InoteTargets :=
  bySlot self.rejectedInotes.length self.inotes.length i
    (fun k => do
      let note ← at? self.rejectedInotes k
      let proof ← at? self.rejectedInotesNctProofs k
      activeInote note proof)
    (fun k => do
      let note ← at? self.inotes k
      let proof ← at? self.inotesNctProofs k
      activeInote note proof)
    (fun k => do
      let seed ← at? self.dinotes k
      return {
        note := dummyInote perm accin assetId
        pos := 0
        isactive := 0
        dinote := seed
        nctMerkle := .zero STATE_TREE_DEPTH })

def onoteTargets (assetId : F) (i : ℕ) : Except Failure OnoteTargets :=
  bySlot self.rejectedInotes.length self.onotes.length i
    (fun k => do
      let note ← at? self.rejectedInotes k
      return activeOnote (reject note))
    (fun k => do
      let note ← at? self.onotes k
      return activeOnote note)
    (fun k => do
      let seed ← at? self.donotes k
      return { note := dummyOnote assetId, isactive := 0, donote := seed })

def setNotesWitness (accin : AccountTarget) (assetId : F) : Except PrivTxProveError NotesTargets := do
  let nRjct := self.rejectedInotes.length
  let nIn := self.inotes.length
  let nOut := self.onotes.length
  revertIf (nRjct + max nIn nOut ≥ NOTE_BATCH) (.proofGenerationFailed
    (s!"note batch overflow: rejected={nRjct}, inotes={nIn}, onotes={nOut}, " ++
      s!"limit={NOTE_BATCH}"))
  revertIf (self.dinotes.length ≠ NOTE_BATCH - nIn - nRjct) (.proofGenerationFailed
    (s!"dinotes length mismatch: expected {NOTE_BATCH - nIn - nRjct}, " ++
      s!"got {self.dinotes.length}"))
  revertIf (self.donotes.length ≠ NOTE_BATCH - nOut - nRjct) (.proofGenerationFailed
    (s!"donotes length mismatch: expected {NOTE_BATCH - nOut - nRjct}, " ++
      s!"got {self.donotes.length}"))
  let inotes ← proveOrPanic (collect fun i : Fin NOTE_BATCH =>
    self.inoteTargets perm accin assetId i.val)
  let onotes ← proveOrPanic (collect fun i : Fin NOTE_BATCH => self.onoteTargets assetId i.val)
  return {
    inotes := inotes
    onotes := onotes
    isNotePairRjct := fun i => boolTarget (i.val < nRjct) }

def assetId : F := firstAsset self.rejectedInotes self.inotes self.onotes

/-- The part of `set_transaction_witnesses` about the asset trees. -/
def setAstWitness : Except PrivTxProveError AstTargets := do
  let accinEntry := amountOrNext self.accin.ast self.assetId
  let accoutEntry := amountOrNext self.accout.ast self.assetId
  revertIf (accinEntry.1 ≠ accoutEntry.1) (.proofGenerationFailed
    (s!"asset AssetId({self.assetId.val}) has different AST indices in accin " ++
      s!"({accinEntry.1}) and accout ({accoutEntry.1})"))
  let proof ← proveOrPanic
    (treeResult (self.accin.ast.tree.merkleProof (hashOutput perm) accinEntry.1))
  let path ← proveOrPanic (merkleTarget ACC_AST_DEPTH proof)
  return {
    accinAmt := U256Target.set accinEntry.2
    accoutAmt := U256Target.set accoutEntry.2
    assetExistsInAccin := boolTarget (self.accin.ast.amountFor self.assetId).isSome
    assetExistsInAccout := boolTarget (self.accout.ast.amountFor self.assetId).isSome
    accinAstMerkle := path }

/-- All targets, with those of the addition chains as their generators fill them. -/
def targets (sigs : TxSignatureTargets) (accin accout : AccountTarget)
    (mainPoolProof : MerkleRootTarget MAIN_POOL_CONFIG_DEPTH)
    (accinActMerkle : MerkleRootTarget STATE_TREE_DEPTH) (ast : AstTargets) (notes : NotesTargets) :
    TxCircuitTargets where
  notFakeTx := boolTarget self.txKindFlags.notFakeTx
  isFreshAcc := boolTarget self.txKindFlags.isFreshAcc
  isUpdateAuth := boolTarget self.txKindFlags.isUpdateAuth
  isPrivTx := boolTarget self.txKindFlags.isPrivTx
  root := self.stateRoot
  mainpoolConfigRoot := self.mainpoolConfigRoot
  approvalKey := self.approvalKey
  assetId := self.assetId
  accinAmt := ast.accinAmt
  assetExistsInAccin := ast.assetExistsInAccin
  accoutAmt := ast.accoutAmt
  assetExistsInAccout := ast.assetExistsInAccout
  accin := accin
  accout := accout
  accinActMerkle := accinActMerkle
  accinAstMerkle := ast.accinAstMerkle
  inotes := fun i => (notes.inotes i).note
  inotesPos := fun i => (notes.inotes i).pos
  inotesIsactive := fun i => (notes.inotes i).isactive
  onotes := fun i => (notes.onotes i).note
  onotesIsactive := fun i => (notes.onotes i).isactive
  isNotePairRjct := notes.isNotePairRjct
  dinotes := fun i => (notes.inotes i).dinote
  donotes := fun i => (notes.onotes i).donote
  inotesNctMerkle := fun i => (notes.inotes i).nctMerkle
  lhs := U256AdditionChain.generate ast.accinAmt fun i =>
    maskAmount (notes.inotes i).isactive (notes.inotes i).note.amount
  rhs := U256AdditionChain.generate ast.accoutAmt fun i =>
    maskAmount (notes.onotes i).isactive (notes.onotes i).note.amount
  mainPoolProof := mainPoolProof
  spend := sigs.spend
  consume := sigs.consume
  approval := sigs.approval

/-- `set_tx_kind_flags` and `set_witness`. -/
def setWitness (sigs : TxSignatureTargets) : Except PrivTxProveError TxCircuitTargets := do
  let mainPoolProof ← proveOrPanic
    (merkleTarget MAIN_POOL_CONFIG_DEPTH self.subpoolProof.mainPoolProof)
  let accin ← proveOrPanic (AccountTarget.setWitness perm self.accin)
  let accout ← proveOrPanic (AccountTarget.setWitness perm self.accout)
  let ast ← self.setAstWitness perm
  let accinActMerkle ← proveOrPanic (merkleTarget STATE_TREE_DEPTH self.accinMerkleProof)
  let notes ← self.setNotesWitness perm accin self.assetId
  return self.targets sigs accin accout mainPoolProof accinActMerkle ast notes

end BuiltPrivTx

end Doxa.Client.Spend
