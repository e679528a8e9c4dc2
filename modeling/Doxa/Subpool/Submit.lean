import Doxa.Subpool.Tables

/-!
# Submitting a spend request

`submit_spend_tx_handler` checks a request against the account and the notes as they stand
and stores it for the operator. Of the signature it checks that it is hexadecimal. Sums of
amounts wrap around, an input note may be named twice, and the asset is the one the
request writes down, not that of the stored notes.
-/

namespace Doxa.Subpool

open Lib Client Circuit
open Contract (U256)

inductive AppError
  | notFound (message : String)
  | invalidInput (message : String)
  | internal
  | panic
  deriving DecidableEq, Repr

structure NotePayload where
  identifier : String
  assetId : String
  amount : String
  recipientAddress : String
  senderAddress : String
  memo : String

structure SpendTxRequest where
  privAccAddress : String
  inputNotes : List NotePayload
  outputNotes : List NotePayload
  dinotes : List String
  donotes : List String
  spendTxSignature : String

/-- `map_err(|e| InvalidInput(e.to_string()))`. -/
def invalidInput {α : Type} : Except Failure α → Except AppError α
  | .ok a => .ok a
  | .error (.error message) => .error (.invalidInput message)
  | .error .panic => .error .panic

/-- `ok_or_else(..)?`. -/
def orInvalid {α : Type} (message : String) : Option α → Except AppError α
  | some a => .ok a
  | none => .error (.invalidInput message)

/-- The check of an input note, with its amount. -/
def checkInputNote (db : Database) (privAccAddress : String) (note : NotePayload) :
    Except AppError U256 := do
  revertIf (note.identifier.utf8ByteSize ≠ 32)
    (AppError.invalidInput s!"input note identifier '{note.identifier}' must be 32 hex chars")
  let row ← orInvalid s!"input note '{note.identifier}' not found" (db.inputNotes.find note.identifier)
  revertIf (row.recipientAddress ≠ privAccAddress)
    (AppError.invalidInput s!"input note '{note.identifier}' recipient does not match priv_acc_address")
  revertIf (row.consume = true) (AppError.invalidInput s!"input note '{note.identifier}' is consumed")
  revertIf (row.status ≠ .approved ∨ row.consume = true)
    (AppError.invalidInput s!"input note '{note.identifier}' is either not approved")
  revertIf (row.amount.length ≠ 32) (AppError.invalidInput "input note amount must be 32 bytes")
  return bytesToU256 row.amount

/-- The asset id all notes of the request write down. -/
def sharedAssetId (req : SpendTxRequest) : Except AppError F := do
  let allAssetIds := (req.inputNotes ++ req.outputNotes).map NotePayload.assetId
  let assetIdHex ← orInvalid "spend tx must have at least one note" allAssetIds.head?
  revertIf (∃ id ∈ allAssetIds, id ≠ assetIdHex)
    (AppError.invalidInput "all notes must share the same asset_id")
  let decoded ← orInvalid "invalid asset_id hex" (hexDecode assetIdHex)
  revertIf (decoded.length ≠ 8) (AppError.invalidInput "asset_id must be 8 bytes")
  invalidInput (assetIdFromU64 (ofLeBytes decoded))

structure DecodedOutput where
  identifier : String
  assetIdBytes : List Byte
  amountBytes : List Byte
  amount : U256
  recipientAddress : String
  senderAddress : String
  memoBytes : List Byte

def decodeOutputNote (privAccAddress : String) (note : NotePayload) : Except AppError DecodedOutput := do
  revertIf (note.senderAddress ≠ privAccAddress)
    (AppError.invalidInput s!"output note '{note.identifier}' sender does not match priv_acc_address")
  let assetIdBytes ← orInvalid s!"invalid asset_id hex in output note '{note.identifier}'"
    (hexDecode note.assetId)
  revertIf (assetIdBytes.length ≠ 8)
    (AppError.invalidInput s!"output note '{note.identifier}' asset_id must be 8 bytes")
  let amountBytes ← orInvalid s!"invalid amount hex in output note '{note.identifier}'"
    (hexDecode note.amount)
  revertIf (amountBytes.length ≠ 32)
    (AppError.invalidInput s!"output note '{note.identifier}' amount must be 32 bytes")
  let memoBytes ← orInvalid s!"invalid memo hex in output note '{note.identifier}'"
    (hexDecode note.memo)
  revertIf (512 < memoBytes.length)
    (AppError.invalidInput s!"output note '{note.identifier}' memo must be at most 512 bytes")
  return { identifier := note.identifier, assetIdBytes := assetIdBytes, amountBytes := amountBytes,
           amount := bytesToU256 amountBytes, recipientAddress := note.recipientAddress,
           senderAddress := note.senderAddress, memoBytes := memoBytes }

/-- `overflowing_add(b).0`. -/
def u256Add (a b : U256) : U256 := a + b

/-- The balance of an account in one asset. -/
def balanceOf (acc : StandardAccount) (assetId : F) : U256 :=
  ((acc.ast.assets.lookup assetId).map Prod.snd).getD 0

/-- The stored output note. -/
def outputNoteRow (out : DecodedOutput) (id : ℕ) : OutputNoteRow where
  id := id
  identifier := out.identifier
  assetId := out.assetIdBytes
  amount := out.amountBytes
  recipientAddress := out.recipientAddress
  senderAddress := out.senderAddress
  memo := out.memoBytes

/-- `INSERT INTO output_notes`. -/
def insertOutputNote (t : Table OutputNoteRow OutputNoteRow.identifier) (out : DecodedOutput) :
    Except AppError (Table OutputNoteRow OutputNoteRow.identifier) :=
  match t.insert (outputNoteRow out) with
  | some t' => .ok t'
  | none => .error .internal

/-- The stored request. -/
def requestRow (req : SpendTxRequest) (spendTxSigBytes : List Byte) (id : ℕ) : SpendTxRow where
  id := id
  privAccAddress := req.privAccAddress
  inoteIdentifiers := req.inputNotes.map NotePayload.identifier
  onoteIdentifiers := req.outputNotes.map NotePayload.identifier
  dinotes := req.dinotes
  donotes := req.donotes
  spendTxSignature := spendTxSigBytes
  status := .pending
  approvalSignature := none

/-- `INSERT INTO spend_tx_requests`. -/
def insertRequest (t : Table SpendTxRow SpendTxRow.id) (row : ℕ → SpendTxRow) :
    Except AppError (Table SpendTxRow SpendTxRow.id) :=
  match t.insert row with
  | some t' => .ok t'
  | none => .error .internal

variable (perm : State → State)

/-- `submit_spend_tx_handler`, with the id it answers. -/
def submitSpendTxHandler (req : SpendTxRequest) (db : Database) : Except AppError (Database × ℕ) := do
  let accountRow ← (match db.accounts.find req.privAccAddress with
    | some row => .ok row
    | none => .error (.notFound s!"account '{req.privAccAddress}' not found"))
  let account ← invalidInput (accountFromRow perm accountRow)
  let inoteAmounts ← req.inputNotes.mapM (checkInputNote db req.privAccAddress)
  let assetId ← sharedAssetId req
  let decodedOutputs ← req.outputNotes.mapM (decodeOutputNote req.privAccAddress)
  let totalIn := inoteAmounts.foldl u256Add 0
  let totalOut := (decodedOutputs.map DecodedOutput.amount).foldl u256Add 0
  let available := u256Add (balanceOf account assetId) totalIn
  revertIf (available < totalOut)
    (AppError.invalidInput "balance mismatch: account_balance + sum(inotes) < sum(onotes)")
  let spendTxSigBytes ← orInvalid "invalid spend_tx_signature hex" (hexDecode req.spendTxSignature)
  let spendTxRequests ← insertRequest db.spendTxRequests (requestRow req spendTxSigBytes)
  let outputNotes ← decodedOutputs.foldlM insertOutputNote db.outputNotes
  return ({ db with outputNotes := outputNotes, spendTxRequests := spendTxRequests },
    db.spendTxRequests.serial)

end Doxa.Subpool
