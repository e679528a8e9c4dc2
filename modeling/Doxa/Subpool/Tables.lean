import Doxa.Lib.Table
import Doxa.Subpool.Convert

/-!
# The tables of a subpool

The rows of the notes and of the spend requests, the readers of their columns, and the
statements the services run on them. A statement that fails, fails its whole transaction.
-/

namespace Doxa.Subpool

open Lib Client Circuit
open Contract (U256)

/-! ## Rows -/

inductive SpendTxStatus
  | pending
  | approved
  | rejected
  deriving DecidableEq

inductive InputNoteStatus
  | pending
  | approved
  | rejected
  deriving DecidableEq

structure SpendTxRow where
  id : ℕ
  privAccAddress : String
  inoteIdentifiers : List String
  onoteIdentifiers : List String
  dinotes : List String
  donotes : List String
  spendTxSignature : List Byte
  status : SpendTxStatus
  approvalSignature : Option (List Byte)

structure InputNoteRow where
  id : ℕ
  identifier : String
  assetId : List Byte
  amount : List Byte
  recipientAddress : String
  senderAddress : String
  memo : List Byte
  consume : Bool
  status : InputNoteStatus

structure OutputNoteRow where
  id : ℕ
  identifier : String
  assetId : List Byte
  amount : List Byte
  recipientAddress : String
  senderAddress : String
  memo : List Byte

/-! ## Columns of a note -/

/-- `value`; `what` tells the two kinds of notes apart. -/
def noteValue (what : String) (id : ℕ) (amount : List Byte) : Except Failure U256 := do
  let amountArr ← tryInto 32 s!"{what} note '{id}' amount must be 32 bytes" amount
  return bytesToU256 amountArr

def noteIdentifier (identifier : String) : Except Failure (Fin 2 → F) := do
  let idBytes ← orError "invalid identifier hex in input note" (hexDecode identifier)
  let idArr ← tryInto 16 "input note identifier must be 16 bytes" idBytes
  return bytesToPrivateId idArr

def noteAssetId (assetId : List Byte) : Except Failure F := do
  let assetIdArr ← tryInto 8 "input note asset_id must be 8 bytes" assetId
  return bytesToF assetIdArr

/-- `from_hex(..).context(message)`. -/
def noteAddress (message : String) (address : String) : Except Failure AccountAddress :=
  orError message (AccountAddress.fromHex address).toOption

/-- `to_standard_note`, with the value of the note. -/
def standardNote (identifier : String) (assetId : List Byte) (value : Except Failure U256)
    (recipientAddress senderAddress : String) : Except Failure StandardNote := do
  let identifier ← noteIdentifier identifier
  let assetId ← noteAssetId assetId
  let amt ← value
  let recipient ← noteAddress "invalid recipient address in input note" recipientAddress
  let sender ← noteAddress "invalid sender address in input note" senderAddress
  return { identifier := identifier, assetId := assetId, amt := amt, recipient := recipient,
           sender := sender }

def InputNoteRow.value (self : InputNoteRow) : Except Failure U256 :=
  noteValue "input" self.id self.amount

def InputNoteRow.toStandardNote (self : InputNoteRow) : Except Failure StandardNote :=
  standardNote self.identifier self.assetId self.value self.recipientAddress self.senderAddress

def OutputNoteRow.value (self : OutputNoteRow) : Except Failure U256 :=
  noteValue "output" self.id self.amount

def OutputNoteRow.recipient (self : OutputNoteRow) : Except Failure AccountAddress :=
  noteAddress "invalid recipient address in input note" self.recipientAddress

def OutputNoteRow.toStandardNote (self : OutputNoteRow) : Except Failure StandardNote :=
  standardNote self.identifier self.assetId self.value self.recipientAddress self.senderAddress

/-! ## The database -/

structure Database where
  accounts : Table AccountRow AccountRow.privateAccAddress
  inputNotes : Table InputNoteRow InputNoteRow.identifier
  outputNotes : Table OutputNoteRow OutputNoteRow.identifier
  spendTxRequests : Table SpendTxRow SpendTxRow.id

/-- One note of `get_inotes`. -/
def SpendTxRow.getInote (self : SpendTxRow) (db : Database) (inoteId : String) :
    Except Failure InputNoteRow := do
  let inote ← orError s!"input note '{inoteId}' not found" (db.inputNotes.find inoteId)
  revertIf (inote.status ≠ .approved ∨ inote.consume = true)
    (Failure.error s!"input note '{inoteId}' is not in APPROVED status")
  revertIf (inote.recipientAddress ≠ self.privAccAddress)
    (Failure.error (s!"input note '{inoteId}' recipient '{inote.recipientAddress}' " ++
      s!"does not match sender '{self.privAccAddress}'"))
  return inote

def SpendTxRow.getInotes (self : SpendTxRow) (db : Database) : Except Failure (List InputNoteRow) :=
  self.inoteIdentifiers.mapM (self.getInote db)

def SpendTxRow.getOnotes (self : SpendTxRow) (db : Database) : Except Failure (List OutputNoteRow) :=
  self.onoteIdentifiers.mapM fun onoteId =>
    orError s!"output note '{onoteId}' not found" (db.outputNotes.find onoteId)

namespace Database

/-- A new approved note. -/
def approvedNote (identifier : String) (assetId amount : List Byte)
    (recipientAddress senderAddress : String) (memo : List Byte) (id : ℕ) : InputNoteRow where
  id := id
  identifier := identifier
  assetId := assetId
  amount := amount
  recipientAddress := recipientAddress
  senderAddress := senderAddress
  memo := memo
  consume := false
  status := .approved

def insertApprovedInputNote (db : Database) (identifier : String) (assetId amount : List Byte)
    (recipientAddress senderAddress : String) (memo : List Byte) : Database :=
  { db with
    inputNotes := db.inputNotes.insertOrIgnore
      (approvedNote identifier assetId amount recipientAddress senderAddress memo) }

def consumedNote (r : InputNoteRow) : InputNoteRow := { r with consume := true }

theorem consumedNote_identifier (r : InputNoteRow) : (consumedNote r).identifier = r.identifier := rfl

/-- `UPDATE input_notes SET consume = true`. -/
def consumeInputNote (db : Database) (inoteId : String) : Database :=
  { db with inputNotes := db.inputNotes.update inoteId consumedNote consumedNote_identifier }

def approvedRequest (sigBytes : List Byte) (r : SpendTxRow) : SpendTxRow :=
  { r with status := .approved, approvalSignature := some sigBytes }

theorem approvedRequest_id (sigBytes : List Byte) (r : SpendTxRow) :
    (approvedRequest sigBytes r).id = r.id := rfl

def updateSpendTxRequestToApproved (db : Database) (sigBytes : List Byte) (id : ℕ) : Database :=
  { db with
    spendTxRequests := db.spendTxRequests.update id (approvedRequest sigBytes)
      (approvedRequest_id sigBytes) }

/-- The columns `update_account` sets. -/
def setColumns (updated : AccountInsert) (row : AccountRow) : AccountRow :=
  { row with
    privateIdentifier := updated.privateIdentifier
    subpoolId := updated.subpoolId
    nonce := updated.nonce
    spendAuth := updated.spendAuth
    consumeAuth := updated.consumeAuth
    ast := updated.ast }

theorem setColumns_address (updated : AccountInsert) (row : AccountRow) :
    (setColumns updated row).privateAccAddress = row.privateAccAddress := rfl

/-- The private identifier is a second unique column of the accounts. -/
def IdentifierTaken (db : Database) (privAccAddress privateIdentifier : String) : Prop :=
  (db.accounts.find privAccAddress).isSome ∧
    ∃ r ∈ db.accounts.rows, r.privateAccAddress ≠ privAccAddress ∧
      r.privateIdentifier = privateIdentifier

instance instDecidableIdentifierTaken (db : Database) (addr pi : String) :
    Decidable (db.IdentifierTaken addr pi) :=
  inferInstanceAs (Decidable (_ ∧ _))

variable (perm : State → State)

def updateAccount (db : Database) (account : StandardAccount) (ethAddress privAccAddress : String) :
    Except Failure Database := do
  let updated ← accountToInsert perm account ethAddress
  revertIf (db.IdentifierTaken privAccAddress updated.privateIdentifier)
    (Failure.error "failed to update sender account after spend tx")
  return { db with
    accounts := db.accounts.update privAccAddress (setColumns updated) (setColumns_address updated) }

/-- The account exists in this subpool. -/
def IsLocal (db : Database) (address : String) : Prop := (db.accounts.find address).isSome

instance instDecidableIsLocal (db : Database) (address : String) : Decidable (db.IsLocal address) :=
  inferInstanceAs (Decidable (_ = true))

/-- The requests the operator polls, in the order of their creation. -/
def pendingSpendTxs (db : Database) : List SpendTxRow :=
  db.spendTxRequests.rows.filter fun r => r.status = .pending

end Database

end Doxa.Subpool
