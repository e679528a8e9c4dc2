import Doxa.Lib.Execution
import Doxa.Subpool.Submit

/-!
# Processing a spend request

`process_one_spend_tx` reads the account and the notes of a request, derives the
transaction, posts it to the sequencer, and then applies it to the database in one
transaction. Notes for other subpools are forwarded after that, one by one.

The sequencer and the network are not part of the program: a run of the function is given
what became of each of its requests (`Circumstances`), and every step of the world is one
call that ran to its end or broke off. The logs of the world record what was accepted,
approved, credited, forwarded and received.
-/

namespace Doxa.Subpool

open Lib Client Circuit
open Contract (U256)

/-! ## The transaction -/

structure TransactionRequest where
  txId : String
  inputAccountLeaf : String
  outputAccountLeaf : String
  inputNotes : List String
  outputNotes : List String
  txProof : String
  deriving DecidableEq

/-- `a + b`, which panics on overflow. -/
def checkedAdd (a b : U256) : Except Failure U256 :=
  if a.toNat + b.toNat < 2 ^ 256 then .ok (a + b) else .error .panic

/-- `for note in notes { sum += note.value()? }`. -/
def sumValues {ρ : Type} (value : ρ → Except Failure U256) (notes : List ρ) : Except Failure U256 :=
  notes.foldlM (fun sum note => value note >>= checkedAdd sum) 0

/-- An array of zeros, written from the front. -/
def noteArray (hashes : List HashOut) : Fin NOTE_BATCH → HashOut := fun i => hashes.getD i 0

def spendTxId (id : ℕ) : String := "spend-" ++ toString id

variable (perm : State → State)

/-- The nullifier of an input note; its position is not looked up. -/
def inoteNullifier (nk : HashOut) (inote : InputNoteRow) : Except Failure HashOut := do
  let note ← inote.toStandardNote
  note.nullifier perm 0 nk

def onoteCommitment (onote : OutputNoteRow) : Except Failure HashOut := do
  let note ← onote.toStandardNote
  return note.commitment perm

def dummyHash (seed : String) : Except Failure HashOut := do
  let val ← hexToHashChecked seed
  return doubleHashNative perm val

/-- What the steps before the post derive. -/
structure PreparedSpend where
  accRow : AccountRow
  onotes : List OutputNoteRow
  accout : StandardAccount
  txHash : HashOut
  txReq : TransactionRequest

/-- The asset of the transaction is that of its first output note. -/
def spendAsset (onotes : List OutputNoteRow) : Except Failure F :=
  match onotes with
  | onote :: _ => noteAssetId onote.assetId
  | [] => .error (.error "spend tx must contain at least one onput note")

/-- The balance of the asset after the transaction. -/
def accoutBalance (accinBalance inotesValue onotesValue : U256) (assetId : F) : Except Failure U256 := do
  let available ← checkedAdd inotesValue accinBalance
  revertIf (available < onotesValue)
    (Failure.error (s!"balance mismatch: inotes({inotesValue.toNat}) + accin.amounnt_for" ++
      s!"({assetId.val}) < onotes({onotesValue.toNat})"))
  return available - onotesValue

/-- Steps 1 to 6 of `process_one_spend_tx`. -/
def prepareSpend (db : Database) (row : SpendTxRow) : Except Failure PreparedSpend := do
  let accRow ← orError "account not found for spend tx sender" (db.accounts.find row.privAccAddress)
  let inotes ← row.getInotes db
  let onotes ← row.getOnotes db
  let assetId ← spendAsset onotes
  let accin ← accountFromRow perm accRow
  let inotesValue ← sumValues InputNoteRow.value inotes
  let onotesValue ← sumValues OutputNoteRow.value onotes
  let balance ← accoutBalance (balanceOf accin assetId) inotesValue onotesValue assetId
  revertIf (inotes.length + row.dinotes.length ≠ NOTE_BATCH)
    (Failure.error (s!"inotes + dinotes len mismatch: {inotes.length} + {row.dinotes.length} != " ++
      s!"{NOTE_BATCH}"))
  revertIf (onotes.length + row.donotes.length ≠ NOTE_BATCH)
    (Failure.error (s!"onotes + donotes len mismatch: {onotes.length} + {row.donotes.length} != " ++
      s!"{NOTE_BATCH}"))
  let inoteNulls ← inotes.mapM (inoteNullifier perm (accin.nk perm))
  let dinoteNulls ← row.dinotes.mapM (dummyHash perm)
  let onoteComms ← onotes.mapM (onoteCommitment perm)
  let donoteComms ← row.donotes.mapM (dummyHash perm)
  let inotesNull := noteArray (inoteNulls ++ dinoteNulls)
  let onotesComm := noteArray (onoteComms ++ donoteComms)
  let updated ← accin.ast.insertOrUpdateAsset perm assetId balance
  let accout := { accin.cloneWithIncrementedNonce with ast := updated.1 }
  let accinNull ← accin.nullifier perm
  let accoutComm ← accout.commitment perm
  return { accRow := accRow
           onotes := onotes
           accout := accout
           txHash := derivePrivTxHash perm accinNull accoutComm inotesNull onotesComm
           txReq :=
            { txId := spendTxId row.id
              inputAccountLeaf := hashToHex accinNull
              outputAccountLeaf := hashToHex accoutComm
              inputNotes := (List.ofFn inotesNull).map hashToHex
              outputNotes := (List.ofFn onotesComm).map hashToHex
              txProof := hexEncode [0] } }

/-! ## Finalization -/

structure CrossSubpoolNote where
  targetSubpool : ℕ
  identifier : String
  assetId : String
  amount : String
  recipientAddress : String
  senderAddress : String
  memo : String
  deriving DecidableEq

/-- `recipient()?.subpool_id`, the word as it was read. -/
def OutputNoteRow.targetSubpool (self : OutputNoteRow) : Except Failure ℕ := do
  let _ ← self.recipient
  return ofLeBytes (slice ((hexDecode self.recipientAddress).getD []) 0 8)

/-- The note as it is sent to another subpool. -/
def crossNote (onote : OutputNoteRow) (targetSubpool : ℕ) : CrossSubpoolNote where
  targetSubpool := targetSubpool
  identifier := onote.identifier
  assetId := hexEncode onote.assetId
  amount := hexEncode onote.amount
  recipientAddress := onote.recipientAddress
  senderAddress := onote.senderAddress
  memo := hexEncode onote.memo

/-- One output note: stored for a local recipient, else kept for forwarding. -/
def settleOnote (s : Database × List CrossSubpoolNote) (onote : OutputNoteRow) :
    Except Failure (Database × List CrossSubpoolNote) :=
  if s.1.IsLocal onote.recipientAddress then
    .ok (s.1.insertApprovedInputNote onote.identifier onote.assetId onote.amount
      onote.recipientAddress onote.senderAddress onote.memo, s.2)
  else do
    let targetSubpool ← onote.targetSubpool
    return (s.1, s.2 ++ [crossNote onote targetSubpool])

/-- The database transaction, up to its commit. -/
def finalizeSpend (db : Database) (row : SpendTxRow) (p : PreparedSpend) (sigBytes : List Byte) :
    Except Failure (Database × List CrossSubpoolNote) := do
  let consumed := row.inoteIdentifiers.foldl Database.consumeInputNote db
  let approved := consumed.updateSpendTxRequestToApproved sigBytes row.id
  let updated ← approved.updateAccount perm p.accout p.accRow.ethAddress row.privAccAddress
  p.onotes.foldlM settleOnote (updated, [])

/-! ## What becomes of the requests -/

/-- An answer of the sequencer. -/
inductive Answer
  | success
  | failure (status : ℕ) (body : String)

/-- The transaction was already submitted. -/
def alreadyInBatch (status : ℕ) (body : String) : Prop :=
  status = 409 ∧ "AN leaf already in current batch".toList <:+: body.toList

instance instDecidableAlreadyInBatch (status : ℕ) (body : String) :
    Decidable (alreadyInBatch status body) := inferInstanceAs (Decidable (_ ∧ _))

/-- What became of the post: whether the sequencer took the transaction, and the answer that
arrived, if one did. -/
structure Reaction where
  accepted : Bool
  answer : Option Answer

/-- The answers after which the finalization begins. -/
def Reaction.GoesOn (re : Reaction) : Prop :=
  match re.answer with
  | none => False
  | some .success => True
  | some (.failure status body) => alreadyInBatch status body

instance instDecidableGoesOn (re : Reaction) : Decidable re.GoesOn := by
  unfold Reaction.GoesOn
  split <;> infer_instance

/-- What became of the forwarding of one note. -/
inductive Delivery
  | accepted
  /-- The sequencer has the note, but its answer did not arrive. -/
  | unanswered
  | failed
  deriving DecidableEq

/-- The notes the sequencer got: the loop ends with the first that fails, and with the
operator. -/
def forwardNotes : List CrossSubpoolNote → List Delivery → List CrossSubpoolNote
  | note :: notes, .accepted :: deliveries => note :: forwardNotes notes deliveries
  | note :: _, .unanswered :: _ => [note]
  | _, _ => []

/-- What a run of `process_one_spend_tx` meets. -/
structure Circumstances where
  /-- The signature drawn for a transaction hash. -/
  sign : HashOut → List Byte
  post : Reaction
  /-- The database transaction gets to its commit. -/
  commits : Bool
  deliveries : List Delivery

/-! ## The world -/

structure IncomingNote where
  identifier : String
  assetId : String
  amount : String
  recipientAddress : String
  senderAddress : String
  memo : String
  deriving DecidableEq

structure World where
  db : Database
  /-- The transactions the sequencer accepted. -/
  accepted : List TransactionRequest
  /-- Those in its current batch. -/
  batch : List TransactionRequest
  /-- The transactions the operator approved. -/
  approvals : List TransactionRequest
  /-- The input notes that were credited. -/
  credited : List String
  /-- The notes the sequencer accepted for other subpools. -/
  forwarded : List CrossSubpoolNote
  /-- The notes received from other subpools. -/
  received : List IncomingNote

/-- A database before the first step. -/
def World.start (db : Database) : World := ⟨db, [], [], [], [], [], []⟩

/-- The post reaches the sequencer or not. -/
def World.post (w : World) (txReq : TransactionRequest) (re : Reaction) : World :=
  if re.accepted then
    { w with accepted := w.accepted ++ [txReq], batch := w.batch ++ [txReq] }
  else w

/-- The commit of a finalized request, and the forwarding after it. -/
def World.commit (w : World) (row : SpendTxRow) (txReq : TransactionRequest)
    (final : Database × List CrossSubpoolNote) (deliveries : List Delivery) : World :=
  { w with
    db := final.1
    approvals := w.approvals ++ [txReq]
    credited := w.credited ++ row.inoteIdentifiers
    forwarded := w.forwarded ++ forwardNotes final.2 deliveries }

def processOneSpendTx (row : SpendTxRow) (c : Circumstances) (w : World) : Except Failure World := do
  let p ← prepareSpend perm w.db row
  let posted := w.post p.txReq c.post
  if c.post.GoesOn ∧ c.commits then
    match finalizeSpend perm w.db row p (c.sign p.txHash) with
    | .ok final => return posted.commit row p.txReq final c.deliveries
    | .error _ => return posted
  else return posted

/-- One note of `poll_incoming_notes`. -/
def receiveNote (note : IncomingNote) (w : World) : Except Failure World := do
  let assetIdBytes ← orError "invalid asset_id hex in forwarded note" (hexDecode note.assetId)
  let amountBytes ← orError "invalid amount hex in forwarded note" (hexDecode note.amount)
  let memoBytes ← orError "invalid memo hex in forwarded note" (hexDecode note.memo)
  return { w with
    db := w.db.insertApprovedInputNote note.identifier assetIdBytes amountBytes
      note.recipientAddress note.senderAddress memoBytes
    received := if note ∈ w.received then w.received else w.received ++ [note] }

/-- The steps of the world. A poll is a sequence of `receive` steps that ends with the first
failure. -/
inductive Op
  | submit (req : SpendTxRequest)
  | process (id : ℕ) (c : Circumstances)
  | receive (note : IncomingNote)
  /-- The sequencer closes its batch. -/
  | closeBatch

inductive StepError
  | submit (e : AppError)
  | operator (e : Failure)
  | notPending

def step : Op → World → Except StepError World
  | .submit req, w =>
    match submitSpendTxHandler perm req w.db with
    | .ok (db, _) => .ok { w with db := db }
    | .error e => .error (.submit e)
  | .process id c, w =>
    match w.db.pendingSpendTxs.find? fun row => row.id = id with
    | some row => (processOneSpendTx perm row c w).mapError .operator
    | none => .error .notPending
  | .receive note, w => (receiveNote note w).mapError .operator
  | .closeBatch, w => .ok { w with batch := [] }

end Doxa.Subpool
