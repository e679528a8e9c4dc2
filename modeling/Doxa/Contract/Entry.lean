import Doxa.Contract.State

/-!
# The external functions of `DoxaContract`

Every state-changing function as a step `ContractState → Except Error ContractState`; a
revert is an error, and a reverting call has no effect. The two submit functions differ
in the mapping they use and the two prove functions share their beginning and end, so the
common parts are written once over `BatchKind`.

A call into a token is an outside reply: `depositAndRegister` is given the two balances it
reads and the result of the transfer (`TokenReply`), the withdrawing functions the result
of each transfer. `step` is the dispatcher over all calls (`Op`).
-/

namespace Doxa.Contract

open Lib Function

variable (env : Env) (ctx : Ctx)

/-! ## Access control and configuration -/

def setVerifier (kind : BatchKind) (newVerifier : Address) (s : ContractState) :
    Except Error ContractState := do
  onlyOperator s ctx
  revertIf (newVerifier = 0) .zeroAddress
  return { s with verifier := update s.verifier kind newVerifier }

def setTxVerifier := setVerifier ctx .tx

def setBridgeTxVerifier := setVerifier ctx .bridge

def setOperator (newOperator : Address) (s : ContractState) : Except Error ContractState := do
  onlyOperator s ctx
  revertIf (newOperator = 0) .zeroAddress
  return { s with operator := newOperator }

def setPaused (paused : Bool) (s : ContractState) : Except Error ContractState := do
  onlyOperator s ctx
  return { s with paused := paused }

def setWithdrawalDelay (newDelay : U256) (s : ContractState) : Except Error ContractState := do
  onlyOperator s ctx
  return { s with withdrawalDelay := newDelay }

def registerAsset (assetId : U256) (token : Address) (s : ContractState) :
    Except Error ContractState := do
  onlyOperator s ctx
  revertIf (assetId = 0) .assetIdZero
  revertIf (token = 0) .zeroAddress
  revertIf (s.assetMap assetId ≠ 0) (.assetIdAlreadyRegistered assetId)
  revertIf (s.tokenToAssetId token ≠ 0) (.tokenAlreadyRegistered token)
  return { s with
    assetMap := update s.assetMap assetId token
    tokenToAssetId := update s.tokenToAssetId token assetId }

/-! ## Subpools -/

def assignSubpoolOwner (subpoolId : BitVec 64) (owner : Address) (s : ContractState) :
    Except Error ContractState := do
  onlyOperator s ctx
  revertIf (subpoolId = 0) .subpoolIdZero
  revertIf (owner = 0) .zeroAddress
  revertIf (subpoolId ≠ 1 ∧ s.subpoolOwners (subpoolId - 1) = 0) .subpoolIdOutOfOrder
  return { s with subpoolOwners := update s.subpoolOwners subpoolId owner }

/-- The walk from a leaf of the config tree to the root. -/
def configWalk (subpoolId : BitVec 64) (siblings : List U256) (depth : ℕ) (leaf : U256) : U256 :=
  forLoop (fun i node =>
    if (subpoolId.toNat >>> i) &&& 1 = 0 then env.compress node (siblings.getD i 0)
    else env.compress (siblings.getD i 0) node) depth leaf

/-- The leaf of a subpool; one that was never updated is the zero leaf. -/
def configLeaf (s : ContractState) (subpoolId : BitVec 64) : U256 :=
  if s.subpoolRoots subpoolId = 0 then 0
  else env.compress (subpoolId.setWidth 256) (s.subpoolRoots subpoolId)

def updateSubpoolRoot (subpoolId : BitVec 64) (newSubpoolRoot : U256) (siblings : List U256)
    (s : ContractState) : Except Error ContractState := do
  whenNotPaused s
  let owner := s.subpoolOwners subpoolId
  revertIf (owner = 0) (.subpoolNotAssigned subpoolId)
  revertIf (ctx.msgSender ≠ owner) (.notSubpoolOwner subpoolId)
  revertIf (siblings.length ≠ s.configTreeDepth)
    (.invalidSiblingPathLength siblings.length s.configTreeDepth)
  let verifyNode := configWalk env subpoolId siblings s.configTreeDepth (configLeaf env s subpoolId)
  revertIf (verifyNode ≠ s.mainPoolConfigRoot) (.invalidMerkleProof subpoolId)
  let newLeaf := env.compress (subpoolId.setWidth 256) newSubpoolRoot
  return { s with
    subpoolRoots := update s.subpoolRoots subpoolId newSubpoolRoot
    mainPoolConfigRoot := configWalk env subpoolId siblings s.configTreeDepth newLeaf }

/-! ## Deposits -/

/-- What the token answers during `_depositAndRegister`. -/
structure TokenReply where
  balanceBefore : U256
  ok : Bool
  balanceAfter : U256
  deriving DecidableEq, Repr

/-- The checks of `_depositAndRegister` before the first call of the token. -/
def checkDeposit (noteCommitment : Bytes32) (payer recipient : Address) (assetId maxAmount : U256)
    (s : ContractState) : Except Error Unit := do
  revertIf ((s.deposits noteCommitment).status ≠ .none) (.duplicateNoteCommitment noteCommitment)
  revertIf (payer = 0 ∨ recipient = 0) .zeroAddress
  revertIf (maxAmount = 0) .invalidAmount
  revertIf (s.assetMap assetId = 0) (.assetNotFound assetId)

/-- The rest of `_depositAndRegister`, once the token has answered. -/
def registerDeposit (noteCommitment : Bytes32) (recipient : Address) (assetId : U256)
    (reply : TokenReply) (s : ContractState) : Except Error ContractState := do
  revertIf (reply.ok = false) .tokenTransferFailed
  revertIf (reply.balanceAfter ≤ reply.balanceBefore) .noTokenReceived
  return { s with
    deposits := update s.deposits noteCommitment
      { value := reply.balanceAfter - reply.balanceBefore
        recipient := recipient
        status := .pending
        depositBlock := ctx.blockNumber
        assetId := assetId } }

def depositAndRegisterInternal (noteCommitment : Bytes32) (payer recipient : Address)
    (assetId maxAmount : U256) (reply : TokenReply) (s : ContractState) :
    Except Error ContractState := do
  checkDeposit noteCommitment payer recipient assetId maxAmount s
  registerDeposit ctx noteCommitment recipient assetId reply s

def depositAndRegister (noteCommitment : Bytes32) (assetId maxAmount : U256) (reply : TokenReply)
    (s : ContractState) : Except Error ContractState := do
  whenNotPaused s
  depositAndRegisterInternal ctx noteCommitment ctx.msgSender ctx.msgSender assetId maxAmount
    reply s

def depositAndRegisterFor (noteCommitment : Bytes32) (payer : Address) (assetId maxAmount : U256)
    (reply : TokenReply) (s : ContractState) : Except Error ContractState := do
  whenNotPaused s
  depositAndRegisterInternal ctx noteCommitment payer payer assetId maxAmount reply s

def withdrawPendingDeposit (noteCommitment : Bytes32) (transferOk : Bool) (s : ContractState) :
    Except Error ContractState := do
  whenNotPaused s
  let dep := s.deposits noteCommitment
  revertIf (dep.status = .none) (.noteNotFound noteCommitment)
  revertIf (dep.status ≠ .pending) (.invalidDepositState noteCommitment)
  revertIf (ctx.msgSender ≠ dep.recipient) .notDepositRecipient
  revertIf (2 ^ 256 ≤ dep.depositBlock.toNat + s.withdrawalDelay.toNat) .overflow
  let availableAt := dep.depositBlock + s.withdrawalDelay
  revertIf (ctx.blockNumber < availableAt) (.withdrawalTooEarly noteCommitment availableAt)
  revertIf (transferOk = false) .tokenTransferFailed
  return { s with deposits := update s.deposits noteCommitment { dep with status := .withdrawn } }

/-! ## Submitting a batch -/

/-- `submitTransactionBatch` and `submitBridgeTxBatch`. -/
def submitBatch (kind : BatchKind) (batchPreimage : Bytes) (s : ContractState) :
    Except Error ContractState := do
  onlyOperator s ctx
  whenNotPaused s
  revertIf (s.imt.confirmedRoots (stateRoot batchPreimage) = false)
    (.rootNotConfirmed (cdB32 batchPreimage 32))
  revertIf (glHashToU256 (cdB32 batchPreimage 64) ≠ s.mainPoolConfigRoot) .poolConfigMismatch
  let pi := piCommitment env batchPreimage
  revertIf (s.confirmedBatches kind pi = true) (.batchAlreadyConfirmed pi)
  revertIf (s.pendingBatches kind pi = true) (.batchAlreadySubmitted pi)
  return { s with
    pendingBatches := update s.pendingBatches kind (update (s.pendingBatches kind) pi true) }

def submitTransactionBatch := submitBatch env ctx .tx

def submitBridgeTxBatch := submitBatch env ctx .bridge

/-! ## Proving a batch -/

/-- The batch is pending and its proof is accepted. -/
def checkProof (kind : BatchKind) (pi : Bytes32) (proof : Proof) (s : ContractState) :
    Except Error Unit := do
  revertIf (s.pendingBatches kind pi = false ∧ s.confirmedBatches kind pi = true)
    (.batchAlreadyConfirmed pi)
  revertIf (s.pendingBatches kind pi = false) (.batchNotFound pi)
  let pubInputs := keccakToPublicInputs pi
  revertIf (env.verifyProof (s.verifier kind) proof pubInputs = false)
    (.proofVerificationFailed pi pubInputs)

def checkNullifier (nullifiers : U256 → Bool) (n : Bytes32) : Except Error Unit :=
  revertIf (nullifiers (glHashToU256 n) = true) (.nullifierAlreadyUsed n)

/-- `delete pending…[pi]; confirmed…[pi] = true`. -/
def confirm (kind : BatchKind) (pi : Bytes32) (s : ContractState) : ContractState :=
  { s with
    pendingBatches := update s.pendingBatches kind (update (s.pendingBatches kind) pi false)
    confirmedBatches := update s.confirmedBatches kind (update (s.confirmedBatches kind) pi true) }

def appendBatchRoot (batchPreimage : Bytes) (s : ContractState) : Except Error ContractState :=
  match s.imt.appendLeaf env.compress s.treeDepth (batchRoot batchPreimage) with
  | .ok imt => .ok { s with imt := imt }
  | .error e => .error (.imt e)

/-- The pre-check of one private-transaction slot. -/
def checkTxSlot (data : Bytes) (nullifiers : U256 → Bool) (slot : ℕ) : Except Error Unit :=
  if cdBool data (txSlotOff slot) = false then .ok ()
  else do
    checkNullifier nullifiers (cdB32 data (txSlotOff slot + TX_ACCIN_NULL_OFF))
    tryLoop (fun j _ =>
      checkNullifier nullifiers (cdB32 data (txSlotOff slot + TX_NOTE_IN_OFF + j * 32)))
      NOTE_BATCH ()

/-- The nullifiers of one private-transaction slot are consumed. -/
def markTxSlot (data : Bytes) (slot : ℕ) (nullifiers : U256 → Bool) : U256 → Bool :=
  if cdBool data (txSlotOff slot) = false then nullifiers
  else
    forLoop (fun j nullifiers => update nullifiers
        (glHashToU256 (cdB32 data (txSlotOff slot + TX_NOTE_IN_OFF + j * 32))) true) NOTE_BATCH
      (update nullifiers (glHashToU256 (cdB32 data (txSlotOff slot + TX_ACCIN_NULL_OFF))) true)

def proveTransactionBatch (batchPreimage : Bytes) (proof : Proof) (s : ContractState) :
    Except Error ContractState := do
  whenNotPaused s
  let pi := piCommitment env batchPreimage
  checkProof env .tx pi proof s
  tryLoop (fun slot _ => checkTxSlot batchPreimage s.nullifiers slot) PRIV_TX_BATCH_SIZE ()
  let s := confirm .tx pi s
  let s := { s with
    nullifiers := forLoop (markTxSlot batchPreimage) PRIV_TX_BATCH_SIZE s.nullifiers }
  appendBatchRoot env batchPreimage s

/-- The pre-check of the withdraw slot and the deposit slot of one index. -/
def checkBridgeSlot (data : Bytes) (s : ContractState) (slot : ℕ) : Except Error Unit := do
  revertIf (cdBool data (wSlotOff slot) = true ∧
    s.nullifiers (glHashToU256 (wNullifier data slot)) = true)
    (.nullifierAlreadyUsed (wNullifier data slot))
  if cdBool data (dSlotOff slot) = false then return ()
  checkNullifier s.nullifiers (dNullifier data slot)
  let status := (s.deposits (noteKey data slot)).status
  revertIf (status = .none) (.noteNotFound (noteKey data slot))
  revertIf (status ≠ .pending) (.invalidDepositState (noteKey data slot))

/-- A withdraw slot consumes its nullifier and queues its payments. -/
def markWithdrawSlot (data : Bytes) (slot : ℕ) (s : ContractState) : ContractState :=
  if cdBool data (wSlotOff slot) = false then s
  else { s with
    nullifiers := update s.nullifiers (glHashToU256 (wNullifier data slot)) true
    pendingWithdrawals := s.pendingWithdrawals ++ [readWithdrawal data slot] }

/-- A deposit slot consumes its nullifier, must match the deposit it names, and validates
it. -/
def markDepositSlot (data : Bytes) (slot : ℕ) (s : ContractState) :
    Except Error ContractState :=
  if cdBool data (dSlotOff slot) = false then .ok s
  else do
    let key := noteKey data slot
    let dep := s.deposits key
    revertIf (dep.recipient ≠ cdGLAddress data (dSlotOff slot + D_ETH_ADDR_OFF))
      (.depositMismatch key)
    revertIf (dep.value ≠ cdGLU256 data (dSlotOff slot + D_AMT_OFF)) (.depositMismatch key)
    revertIf (dep.assetId ≠ cdGLU64 data (dSlotOff slot + D_ASSET_ID_OFF)) (.depositMismatch key)
    return { s with
      nullifiers := update s.nullifiers (glHashToU256 (dNullifier data slot)) true
      deposits := update s.deposits key { dep with status := .validated } }

def proveBridgeTxBatch (batchPreimage : Bytes) (proof : Proof) (s : ContractState) :
    Except Error ContractState := do
  whenNotPaused s
  let pi := piCommitment env batchPreimage
  checkProof env .bridge pi proof s
  tryLoop (fun slot _ => checkBridgeSlot batchPreimage s slot) BRIDGE_TX_HALF_SIZE ()
  let s := confirm .bridge pi s
  let s := forLoop (markWithdrawSlot batchPreimage) BRIDGE_TX_HALF_SIZE s
  let s ← tryLoop (markDepositSlot batchPreimage) BRIDGE_TX_HALF_SIZE s
  appendBatchRoot env batchPreimage s

/-! ## The withdrawal queue -/

/-- The payments of one queue entry: position, token, recipient, amount. An entry without
a registered asset or an amount is skipped. -/
def payments (s : ContractState) (pw : PendingWithdrawal) : List (Address × Address × U256) :=
  (List.finRange NOTE_BATCH).filterMap fun j =>
    if pw.assetIds j = 0 ∨ pw.amounts j = 0 then none
    else if s.assetMap (pw.assetIds j) = 0 then none
    else some (s.assetMap (pw.assetIds j), pw.recipient, pw.amounts j)

/-- The `k`-th transfer of the call succeeds when `transferOk k` says so. -/
def flushPendingWithdrawals (transferOk : ℕ → Bool) (s : ContractState) :
    Except Error ContractState := do
  let transfers := s.pendingWithdrawals.flatMap (payments s)
  tryLoop (fun k _ => revertIf (transferOk k = false) Error.tokenTransferFailed)
    transfers.length ()
  return { s with pendingWithdrawals := [] }

/-! ## All calls -/

inductive Op
  | setTxVerifier (newVerifier : Address)
  | setBridgeTxVerifier (newVerifier : Address)
  | setOperator (newOperator : Address)
  | setPaused (paused : Bool)
  | setWithdrawalDelay (newDelay : U256)
  | registerAsset (assetId : U256) (token : Address)
  | assignSubpoolOwner (subpoolId : BitVec 64) (owner : Address)
  | updateSubpoolRoot (subpoolId : BitVec 64) (newSubpoolRoot : U256) (siblings : List U256)
  | depositAndRegister (noteCommitment : Bytes32) (assetId maxAmount : U256) (reply : TokenReply)
  | depositAndRegisterFor (noteCommitment : Bytes32) (payer : Address) (assetId maxAmount : U256)
      (reply : TokenReply)
  | withdrawPendingDeposit (noteCommitment : Bytes32) (transferOk : Bool)
  | submitTransactionBatch (batchPreimage : Bytes)
  | proveTransactionBatch (batchPreimage : Bytes) (proof : Proof)
  | submitBridgeTxBatch (batchPreimage : Bytes)
  | proveBridgeTxBatch (batchPreimage : Bytes) (proof : Proof)
  | flushPendingWithdrawals (transferOk : ℕ → Bool)

/-- A call with its sender and block. -/
structure Call where
  ctx : Ctx
  op : Op

def step (c : Call) (s : ContractState) : Except Error ContractState :=
  match c.op with
  | .setTxVerifier v => setTxVerifier c.ctx v s
  | .setBridgeTxVerifier v => setBridgeTxVerifier c.ctx v s
  | .setOperator o => setOperator c.ctx o s
  | .setPaused b => setPaused c.ctx b s
  | .setWithdrawalDelay d => setWithdrawalDelay c.ctx d s
  | .registerAsset a t => registerAsset c.ctx a t s
  | .assignSubpoolOwner i o => assignSubpoolOwner c.ctx i o s
  | .updateSubpoolRoot i r sib => updateSubpoolRoot env c.ctx i r sib s
  | .depositAndRegister n a m r => depositAndRegister c.ctx n a m r s
  | .depositAndRegisterFor n p a m r => depositAndRegisterFor c.ctx n p a m r s
  | .withdrawPendingDeposit n ok => withdrawPendingDeposit c.ctx n ok s
  | .submitTransactionBatch b => submitTransactionBatch env c.ctx b s
  | .proveTransactionBatch b p => proveTransactionBatch env b p s
  | .submitBridgeTxBatch b => submitBridgeTxBatch env c.ctx b s
  | .proveBridgeTxBatch b p => proveBridgeTxBatch env b p s
  | .flushPendingWithdrawals ok => flushPendingWithdrawals ok s

end Doxa.Contract
