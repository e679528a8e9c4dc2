import Doxa.Lib.Program
import Doxa.StateSync.Chain
import Doxa.StateSync.Steps

/-!
# Syncing from the chain

`poll_sync` reads the logs of the blocks since the last one synced, page by page, applies the
new submissions, confirms the proven batches in the order of their leaf indices, syncs the
config tree and the deposits, and only then moves `last_synced_block` on. The state is changed
between the calls of the node, and nothing is undone when one of them fails.

A run of `poll_sync` is a `Poll`: the head of the chain, which calls of the node succeed, and
the order in which the entries of a hash map are visited. The config tree and the deposits are
indexes of their own; here they are the calls they make and the root they cannot decode.
-/

namespace Doxa.StateSync

open Lib Contract Function

/-! ## The node -/

inductive EventKind
  | submitted (kind : BatchKind)
  | proven (kind : BatchKind)
  | subpoolOwnerAssigned
  | subpoolRootUpdated
  | depositAvailable
  | depositValidated
  | depositWithdrawn
  deriving DecidableEq, Repr

def Log.event : Log → EventKind
  | .submitted kind _ _ => .submitted kind
  | .proven kind _ _ _ => .proven kind
  | .subpoolRootUpdated _ => .subpoolRootUpdated

/-- The calls of the node, each with the place it is made from. -/
inductive RpcCall
  | blockNumber
  /-- `treeDepth()` and `configTreeDepth()`. -/
  | treeDepths
  | getLogs (event : EventKind) (fromBlock toBlock : ℕ)
  /-- `eth_getLogs` and `eth_getTransactionByHash` of the search for a submission. -/
  | searchLogs (kind : BatchKind) (piCommitment : Bytes32) (fromBlock toBlock : ℕ)
  | searchInput (kind : BatchKind) (piCommitment : Bytes32)
  | submissionInput (kind : BatchKind) (piCommitment : Bytes32)
  /-- The calls of `subpoolRoots` at the first sync, and the decoding of what they return. -/
  | subpoolRoots

/-- One run of `poll_sync` as its surroundings decide it. -/
structure Poll where
  /-- The latest block. -/
  toBlock : ℕ
  /-- The calls that succeed. -/
  rpc : RpcCall → Bool
  /-- The order in which a hash map is iterated. -/
  order : List (Bytes32 × Call) → List (Bytes32 × Call)
  order_perm : ∀ m, (order m).Perm m

namespace Chain

variable (chain : Chain)

def logsIn (fromBlock toBlock : ℕ) : List Log :=
  (List.range' fromBlock (toBlock + 1 - fromBlock)).flatMap chain.logs

/-- `eth_getLogs` with an event signature. -/
def getLogs (event : EventKind) (fromBlock toBlock : ℕ) : List Log :=
  (chain.logsIn fromBlock toBlock).filter fun log => log.event = event

end Chain

/-- Little-endian limbs, each of which has to be below the field order. -/
def u256LeToHash (v : U256) : Option HashOut :=
  if ∀ i : Fin 4, v.toNat / 2 ^ (64 * i.val) % 2 ^ 64 < ORDER then
    some fun i => ((v.toNat / 2 ^ (64 * i.val) % 2 ^ 64 : ℕ) : F)
  else none

/-! ## Pages of logs -/

abbrev SyncProgram := Program SyncError StateSyncState

section Sync

variable (perm : State → State) (chain : Chain) (chunkBlocks : ℕ) (poll : Poll)

def call (c : RpcCall) : SyncProgram Unit := if poll.rpc c then pure () else Program.fail .rpc

/-- `while chunk_start <= to_block`; a page has at least one block, so `fuel` is enough when it
counts the blocks. -/
def pages (page : ℕ → ℕ → SyncProgram (List Log)) (toBlock : ℕ) :
    ℕ → ℕ → SyncProgram (List Log)
  | 0, _ => pure []
  | fuel + 1, chunkStart =>
    if chunkStart ≤ toBlock then do
      let chunkEnd := min (chunkStart + chunkBlocks - 1) toBlock
      let chunk ← page chunkStart chunkEnd
      let rest ← pages page toBlock fuel (chunkEnd + 1)
      return chunk ++ rest
    else return []

def fetchPage (event : EventKind) (chunkStart chunkEnd : ℕ) : SyncProgram (List Log) := do
  call poll (.getLogs event chunkStart chunkEnd)
  return chain.getLogs event chunkStart chunkEnd

def fetchLogs (event : EventKind) (fromBlock toBlock : ℕ) : SyncProgram (List Log) :=
  pages chunkBlocks (fetchPage chain poll event) toBlock (toBlock + 1 - fromBlock) fromBlock

/-- The first submission of `piCommitment`, searched page by page. -/
def searchPages (kind : BatchKind) (piCommitment : Bytes32) (toBlock : ℕ) :
    ℕ → ℕ → SyncProgram Call
  | 0, _ => Program.fail .submissionNotFound
  | fuel + 1, chunkStart =>
    if chunkStart ≤ toBlock then do
      let chunkEnd := min (chunkStart + chunkBlocks - 1) toBlock
      call poll (.searchLogs kind piCommitment chunkStart chunkEnd)
      match (submissions kind (chain.logsIn chunkStart chunkEnd)).find? fun e =>
        e.1 = piCommitment with
      | some e => return e.2
      | none => searchPages kind piCommitment toBlock fuel (chunkEnd + 1)
    else Program.fail .submissionNotFound

def findSubmissionTxHash (kind : BatchKind) (piCommitment : Bytes32) (fromBlock toBlock : ℕ) :
    SyncProgram Call :=
  searchPages chain chunkBlocks poll kind piCommitment toBlock (toBlock + 1 - fromBlock) fromBlock

/-- The preimage in the input of a transaction. -/
def decodeCalldata (transaction : Call) : SyncProgram (List (BitVec 8)) :=
  match chain.calldata transaction with
  | some preimage => pure preimage
  | none => Program.fail .calldataNotDecoded

/-! ## Submissions -/

/-- `build_tx_submit_map` and `build_bridge_submit_map`: a later log of the same commitment
replaces an earlier one. -/
def submitMap (entries : List (Bytes32 × Call)) : List (Bytes32 × Call) :=
  entries.foldl (fun m e => (m.filter fun x => x.1 ≠ e.1) ++ [e]) []

def applySubmission (kind : BatchKind) (entry : Bytes32 × Call) : SyncProgram Unit := do
  let alreadyKnown ← Program.read fun s =>
    (s.pendingBatches kind entry.1).isSome || s.confirmedBatches kind entry.1
  if alreadyKnown then pure () else do
    call poll (.submissionInput kind entry.1)
    let preimage ← decodeCalldata chain entry.2
    Program.change (applyPreimage kind preimage entry.1)

def processNewSubmissions (fromBlock toBlock : ℕ) : SyncProgram Unit := do
  let txLogs ← fetchLogs chain chunkBlocks poll (.submitted .transaction) fromBlock toBlock
  let bridgeLogs ← fetchLogs chain chunkBlocks poll (.submitted .bridgeTx) fromBlock toBlock
  Program.forEach (applySubmission chain poll .transaction)
    (poll.order (submitMap (submissions .transaction txLogs)))
  Program.forEach (applySubmission chain poll .bridgeTx)
    (poll.order (submitMap (submissions .bridgeTx bridgeLogs)))

/-! ## Proven batches -/

structure ProvenBatchEntry where
  piCommitment : Bytes32
  newTreeRoot : HashOut
  leafIndex : ℕ
  kind : BatchKind

/-- `decode_tx_proven_log` and `decode_bridge_proven_log`. -/
def decodeProvenLog (p : Proven) : Option ProvenBatchEntry :=
  (u256LeToHash p.newTreeRoot).map fun root => ⟨p.piCommitment, root, p.leafIndex, p.kind⟩

/-- A log that cannot be decoded is skipped. -/
def collectProvenBatches (fromBlock toBlock : ℕ) : SyncProgram (List ProvenBatchEntry) := do
  let txLogs ← fetchLogs chain chunkBlocks poll (.proven .transaction) fromBlock toBlock
  let bridgeLogs ← fetchLogs chain chunkBlocks poll (.proven .bridgeTx) fromBlock toBlock
  return (provens txLogs).filterMap decodeProvenLog ++
    (provens bridgeLogs).filterMap decodeProvenLog

/-- `sort_by_key(|b| b.leaf_index)`, which is stable. -/
def sortByLeafIndex (entries : List ProvenBatchEntry) : List ProvenBatchEntry :=
  entries.mergeSort fun a b => a.leafIndex ≤ b.leafIndex

def extractBatchRootFromPreimage (preimage : List (BitVec 8)) : Except SyncError HashOut :=
  if preimage.length < 32 then .error .preimageTooShort
  else match readHash preimage 0 with
    | some root => .ok root
    | none => .error .panic

/-- The loop body of `poll_sync` for one proven batch. A submission that is not pending is
searched in the blocks from `genesisBlock` to `searchTo`. -/
def confirmEntry (genesisBlock searchTo : ℕ) (entry : ProvenBatchEntry) : SyncProgram Unit := do
  let preimageKnown ← Program.read fun s =>
    (s.pendingBatches .transaction entry.piCommitment).isSome ||
      (s.pendingBatches .bridgeTx entry.piCommitment).isSome
  if preimageKnown then pure () else do
    let transaction ← findSubmissionTxHash chain chunkBlocks poll entry.kind entry.piCommitment
      genesisBlock searchTo
    call poll (.searchInput entry.kind entry.piCommitment)
    let preimage ← decodeCalldata chain transaction
    Program.change (applyPreimage entry.kind preimage entry.piCommitment)
  let pending ← Program.read fun s => s.pendingBatches entry.kind entry.piCommitment
  match pending with
  | none => return ()
  | some preimage =>
    let batchRoot ← Program.ofExcept (extractBatchRootFromPreimage preimage)
    Program.change fun s => s.confirmBatch perm entry.piCommitment batchRoot entry.newTreeRoot

/-! ## Config tree and deposits -/

/-- A new subpool root has to be a digest. -/
def checkSubpoolRoot : Log → SyncProgram Unit
  | .subpoolRootUpdated root =>
    if (u256LeToHash root).isSome then pure () else Program.fail .limbOutOfRange
  | _ => pure ()

/-- The `initial` sync reads the current roots, a later one takes them from the logs. -/
def syncConfigTree (initial : Bool) (fromBlock toBlock : ℕ) : SyncProgram Unit := do
  let _ ← fetchLogs chain chunkBlocks poll .subpoolOwnerAssigned fromBlock toBlock
  let updated ← fetchLogs chain chunkBlocks poll .subpoolRootUpdated fromBlock toBlock
  if initial then call poll .subpoolRoots else Program.forEach checkSubpoolRoot updated

def syncDeposits (fromBlock toBlock : ℕ) : SyncProgram Unit := do
  let _ ← fetchLogs chain chunkBlocks poll .depositAvailable fromBlock toBlock
  let _ ← fetchLogs chain chunkBlocks poll .depositValidated fromBlock toBlock
  let _ ← fetchLogs chain chunkBlocks poll .depositWithdrawn fromBlock toBlock
  return ()

/-! ## Runs -/

/-- The steps that `sync_from_genesis` and `poll_sync` share. -/
def syncRange (initial : Bool) (genesisBlock searchTo fromBlock toBlock : ℕ) :
    SyncProgram Unit := do
  processNewSubmissions chain chunkBlocks poll fromBlock toBlock
  let proven ← collectProvenBatches chain chunkBlocks poll fromBlock toBlock
  Program.forEach (confirmEntry perm chain chunkBlocks poll genesisBlock searchTo)
    (sortByLeafIndex proven)
  syncConfigTree chain chunkBlocks poll initial fromBlock toBlock
  syncDeposits chain chunkBlocks poll fromBlock toBlock
  Program.change fun s => .ok { s with lastSyncedBlock := toBlock }

def pollSync (genesisBlock : ℕ) : SyncProgram Unit := do
  let fromBlock ← Program.read fun s => s.lastSyncedBlock
  call poll .blockNumber
  if poll.toBlock ≤ fromBlock then pure ()
  else
    syncRange perm chain chunkBlocks poll false genesisBlock fromBlock (fromBlock + 1)
      poll.toBlock

/-- A service, when all calls succeeded. The depth of the tree is the one of the contract. -/
def syncFromGenesis (genesisBlock : ℕ) : Except SyncError StateSyncState :=
  if poll.rpc .blockNumber = false ∨ poll.rpc .treeDepths = false then .error .rpc
  else if chain.deployed.configTreeDepth ≠ Circuit.MAIN_POOL_CONFIG_DEPTH then
    .error .configTreeDepth
  else do
    let s ← StateSyncState.new perm chain.deployed.treeDepth
    match syncRange perm chain chunkBlocks poll true genesisBlock poll.toBlock genesisBlock
      poll.toBlock s with
    | (.ok _, s') => .ok s'
    | (.error e, _) => .error e

/-- The state behind its lock; `none` once a panic has ended the task or poisoned the lock. -/
abbrev Service := Option StateSyncState

def servePoll (genesisBlock : ℕ) : Service → Except SyncError Unit × Service
  | none => (.error .panic, none)
  | some s =>
    match pollSync perm chain chunkBlocks poll genesisBlock s with
    | (.error .panic, _) => (.error .panic, none)
    | (result, s') => (result, some s')

end Sync

/-- The service after some runs. -/
def runPolls (perm : State → State) (chain : Chain) (chunkBlocks genesisBlock : ℕ)
    (service : Service) (polls : List Poll) : Service :=
  polls.foldl (fun service poll =>
    (servePoll perm chain chunkBlocks poll genesisBlock service).2) service

end Doxa.StateSync
