import Doxa.Contract.DepositLog
import Doxa.Lib.CatchUp
import Doxa.StateSync.Poll

/-!
# The deposit index

`sync_deposits` reads the three events of deposits one kind after another: all deposits of its
range are registered as pending, and only then are those validated and withdrawn in the range
marked. This is a replay of the events in the order of the chain because a commitment is never
registered again once it has ended, so that in a range that registers it all its ends are ends
of that registration, and because it ends in one way. A range may be read again, to a later
end; the earlier reading is then a replay of a beginning of it (`synced_replay`).

The history is one of a contract whose tokens may call back. A deposit that is recorded over one
that has ended while it waited for its token breaks the order, and the index keeps the end
(`deposits_unmirrored`).
-/

namespace Doxa.StateSync

open Lib Contract Function

/-! ## The history -/

/-- What the blocks hold: calls of the contract and what its tokens do. -/
structure TokenHistory where
  env : Env
  deployed : ContractState
  blocks : ℕ → List VaultAct

namespace TokenHistory

variable (chain : TokenHistory)

/-- The contract and the events before block `n`. -/
def before (n : ℕ) : Journal :=
  run (journalStep chain.env) (.start chain.deployed) ((List.range n).flatMap chain.blocks)

/-- The events of block `n`. -/
def logs (n : ℕ) : List DepositLog :=
  (run (journalStep chain.env) ⟨(chain.before n).machine, ⟨[], []⟩⟩ (chain.blocks n)).trace.logs

/-- The deposits of the contract after block `n`. -/
def deposits (n : ℕ) : Bytes32 → Contract.Deposit :=
  (chain.before (n + 1)).machine.world.contract.deposits

end TokenHistory

/-- A transaction ends in its block. -/
structure TokenChain extends TokenHistory where
  isDeployed : Deployed env deployed
  idle : ∀ n, (toTokenHistory.before n).machine.stack = []

/-! ## The index -/

inductive DepositStatus
  | pending
  | validated
  | withdrawn
  deriving DecidableEq, Repr

def DepositStatus.toContract : DepositStatus → Contract.DepositStatus
  | .pending => .pending
  | .validated => .validated
  | .withdrawn => .withdrawn

structure DepositRecord where
  noteCommitment : Bytes32
  value : U256
  recipient : Address
  status : DepositStatus
  depositBlock : ℕ
  assetId : U256
  deriving DecidableEq, Repr

abbrev DepositIndex := Bytes32 → Option DepositRecord

abbrev DepositProgram := Program SyncError DepositIndex

def depositEvent : DepositLog → EventKind
  | .available _ _ _ _ => .depositAvailable
  | .validated _ => .depositValidated
  | .withdrawn _ => .depositWithdrawn

namespace DepositIndex

def insertAvailable (deposits : DepositIndex) : ℕ × DepositLog → DepositIndex
  | (block, .available noteCommitment value recipient assetId) =>
    update deposits noteCommitment
      (some ⟨noteCommitment, value, recipient, .pending, block, assetId⟩)
  | _ => deposits

/-- `if let Some(record) = state.deposits.get_mut(…) { record.status = … }`. -/
def setStatus (deposits : DepositIndex) (noteCommitment : Bytes32) (status : DepositStatus) :
    DepositIndex :=
  match deposits noteCommitment with
  | some record => update deposits noteCommitment (some { record with status := status })
  | none => deposits

/-- The deposit an event ends is marked. -/
def markEnded (ends : DepositLog → Option Bytes32) (status : DepositStatus)
    (deposits : DepositIndex) (x : ℕ × DepositLog) : DepositIndex :=
  match ends x.2 with
  | some noteCommitment => setStatus deposits noteCommitment status
  | none => deposits

def validatedNote : DepositLog → Option Bytes32
  | .validated noteCommitment => some noteCommitment
  | _ => none

def withdrawnNote : DepositLog → Option Bytes32
  | .withdrawn noteCommitment => some noteCommitment
  | _ => none

def markValidated := markEnded validatedNote .validated

def markWithdrawn := markEnded withdrawnNote .withdrawn

section Sync

variable (logs : ℕ → List DepositLog) (chunkBlocks : ℕ) (rpc : RpcCall → Bool)

/-- `eth_getLogs` with an event signature. -/
def fetchPage (event : EventKind) (chunkStart chunkEnd : ℕ) :
    DepositProgram (List (ℕ × DepositLog)) :=
  if rpc (.getLogs event chunkStart chunkEnd) then
    pure (blocksIn (fun n => (logs n).filter fun log => depositEvent log = event)
      chunkStart chunkEnd)
  else Program.fail .rpc

def fetchLogs (event : EventKind) (fromBlock toBlock : ℕ) :
    DepositProgram (List (ℕ × DepositLog)) :=
  readPages chunkBlocks (fetchPage logs rpc event) toBlock (toBlock + 1 - fromBlock) fromBlock

def syncDeposits (fromBlock toBlock : ℕ) : DepositProgram Unit := do
  let availableLogs ← fetchLogs logs chunkBlocks rpc .depositAvailable fromBlock toBlock
  let validatedLogs ← fetchLogs logs chunkBlocks rpc .depositValidated fromBlock toBlock
  let withdrawnLogs ← fetchLogs logs chunkBlocks rpc .depositWithdrawn fromBlock toBlock
  Program.change fun deposits => .ok (availableLogs.foldl insertAvailable deposits)
  Program.change fun deposits => .ok (validatedLogs.foldl markValidated deposits)
  Program.change fun deposits => .ok (withdrawnLogs.foldl markWithdrawn deposits)

end Sync

/-! ## One range -/

/-- The record an event makes. -/
def recordOf (k : Bytes32) : ℕ × DepositLog → Option DepositRecord
  | (block, .available noteCommitment value recipient assetId) =>
    if noteCommitment = k then some ⟨noteCommitment, value, recipient, .pending, block, assetId⟩
    else none
  | _ => none

/-- The record the last event makes. -/
def lastRecord (k : Bytes32) (L : List (ℕ × DepositLog)) : Option DepositRecord :=
  L.reverse.findSome? (recordOf k)

/-- The status of a record after the events of a range. -/
def mark (k : Bytes32) (L : List (ℕ × DepositLog)) (record : DepositRecord) : DepositRecord :=
  if .withdrawn k ∈ L.map Prod.snd then { record with status := .withdrawn }
  else if .validated k ∈ L.map Prod.snd then { record with status := .validated }
  else record

/-- The index after a range. -/
def synced (L : List (ℕ × DepositLog)) (deposits : DepositIndex) : DepositIndex := fun k =>
  ((lastRecord k L).or (deposits k)).map (mark k L)

/-- The index that has read these events and no others. -/
def replay (L : List (ℕ × DepositLog)) : DepositIndex := synced L fun _ => none

section Folds

variable {k : Bytes32} (L L' : List (ℕ × DepositLog)) (deposits : DepositIndex)

theorem lastRecord_append : lastRecord k (L ++ L') = (lastRecord k L').or (lastRecord k L) := by
  rw [lastRecord, List.reverse_append, List.findSome?_append]
  rfl

theorem lastRecord_singleton (x : ℕ × DepositLog) : lastRecord k [x] = recordOf k x := by
  unfold lastRecord
  rw [List.reverse_singleton, List.findSome?_cons]
  cases recordOf k x with
  | none => rfl
  | some r => rfl

theorem foldl_insertAvailable :
    L.foldl insertAvailable deposits k = (lastRecord k L).or (deposits k) := by
  induction L using List.reverseRecOn with
  | nil => rfl
  | append_singleton L x ih =>
    rw [List.foldl_append, List.foldl_cons, List.foldl_nil, lastRecord_append, lastRecord_singleton]
    obtain ⟨block, log⟩ := x
    cases log with
    | available n value recipient assetId =>
      by_cases hn : k = n
      · subst hn
        simp only [insertAvailable, update_self, recordOf, if_true, Option.some_or]
      · simp only [insertAvailable, update_of_ne hn, recordOf, if_neg (Ne.symm hn), Option.none_or]
        exact ih
    | validated n => exact ih
    | withdrawn n => exact ih

theorem setStatus_apply (n : Bytes32) (status : DepositStatus) :
    setStatus deposits n status k =
      (deposits k).map fun record => if k = n then { record with status := status } else record := by
  unfold setStatus
  by_cases hn : k = n
  · subst hn
    cases hrecord : deposits k with
    | none => simp only [hrecord, Option.map_none]
    | some record => simp only [update_self, Option.map_some, if_true]
  · simp only [if_neg hn, Option.map_id']
    cases deposits n with
    | none => rfl
    | some record =>
      dsimp only
      rw [update_of_ne hn]

theorem foldl_markEnded (ends : DepositLog → Option Bytes32) (status : DepositStatus) :
    L.foldl (markEnded ends status) deposits k = (deposits k).map fun record =>
      if some k ∈ L.map (fun x => ends x.2) then { record with status := status } else record := by
  induction L using List.reverseRecOn with
  | nil => simp
  | append_singleton L x ih =>
    have hmem : some k ∈ (L ++ [x]).map (fun x => ends x.2) ↔
        some k ∈ L.map (fun x => ends x.2) ∨ ends x.2 = some k := by
      rw [List.map_append, List.mem_append, List.map_singleton, List.mem_singleton, eq_comm (b := ends x.2)]
    rw [List.foldl_append, List.foldl_cons, List.foldl_nil]
    simp only [hmem, markEnded]
    cases hend : ends x.2 with
    | none => simpa only [reduceCtorEq, or_false] using ih
    | some n =>
      dsimp only
      rw [setStatus_apply, ih, Option.map_map]
      refine congrArg (fun f => (deposits k).map f) (funext fun record => ?_)
      by_cases hn : k = n
      · subst hn
        simp only [Function.comp_apply, if_true, or_true]
        split_ifs <;> rfl
      · simp only [Function.comp_apply, if_neg hn, Option.some.injEq, Ne.symm hn, or_false]

theorem mem_validatedNote : some k ∈ L.map (fun x => validatedNote x.2) ↔
    .validated k ∈ L.map Prod.snd := by
  simp only [List.mem_map]
  refine exists_congr fun x => and_congr_right fun _ => ?_
  obtain ⟨block, log⟩ := x
  cases log <;> simp [validatedNote]

theorem mem_withdrawnNote : some k ∈ L.map (fun x => withdrawnNote x.2) ↔
    .withdrawn k ∈ L.map Prod.snd := by
  simp only [List.mem_map]
  refine exists_congr fun x => and_congr_right fun _ => ?_
  obtain ⟨block, log⟩ := x
  cases log <;> simp [withdrawnNote]

theorem foldl_kinds : L.foldl markWithdrawn (L.foldl markValidated (L.foldl insertAvailable deposits)) =
    synced L deposits := by
  funext k
  simp only [markWithdrawn, markValidated]
  rw [foldl_markEnded, foldl_markEnded, foldl_insertAvailable, Option.map_map, synced]
  refine congrArg (fun f => ((lastRecord k L).or (deposits k)).map f) (funext fun record => ?_)
  simp only [mem_validatedNote, mem_withdrawnNote, mark]
  by_cases hw : DepositLog.withdrawn k ∈ L.map Prod.snd
  · by_cases hv : DepositLog.validated k ∈ L.map Prod.snd
    · simp only [Function.comp_apply, if_pos hw, if_pos hv]
    · simp only [Function.comp_apply, if_pos hw, if_neg hv]
  · simp only [Function.comp_apply, if_neg hw]

end Folds

/-! ## Reading again -/

section Replay

variable {A B C : List (ℕ × DepositLog)} {k : Bytes32}

theorem mark_withdrawn {L : List (ℕ × DepositLog)} (h : .withdrawn k ∈ L.map Prod.snd)
    (record : DepositRecord) : mark k L record = { record with status := .withdrawn } := if_pos h

theorem mark_validated {L : List (ℕ × DepositLog)} (h : .validated k ∈ L.map Prod.snd)
    (hw : .withdrawn k ∉ L.map Prod.snd) (record : DepositRecord) :
    mark k L record = { record with status := .validated } := by
  rw [mark, if_neg hw, if_pos h]

/-- Marking changes nothing but the status. -/
theorem mark_status (L : List (ℕ × DepositLog)) (record : DepositRecord) (status : DepositStatus) :
    { mark k L record with status := status } = { record with status := status } := by
  unfold mark
  split_ifs <;> rfl

theorem recordOf_isSome {x : ℕ × DepositLog} (h : recordOf k x ≠ none) :
    registration k x.2 ≠ none := by
  obtain ⟨block, log⟩ := x
  cases log with
  | available n value recipient assetId =>
    by_cases hn : n = k
    · simp only [registration, if_pos hn]
      exact Option.some_ne_none _
    · exact absurd (if_neg hn) h
  | validated n => exact absurd rfl h
  | withdrawn n => exact absurd rfl h

/-- An ended commitment is not registered in what follows. -/
theorem not_ended {L : List (ℕ × DepositLog)} (hordered : ((A ++ L).map Prod.snd).Pairwise Precedes)
    {record : DepositRecord} (h : lastRecord k L = some record) :
    .validated k ∉ A.map Prod.snd ∧ .withdrawn k ∉ A.map Prod.snd := by
  obtain ⟨x, hx, hrecord⟩ := List.exists_of_findSome?_eq_some h
  have hreg := recordOf_isSome (k := k) (x := x) (by rw [hrecord]; exact Option.some_ne_none _)
  have hmem : x.2 ∈ L.map Prod.snd := List.mem_map_of_mem (List.mem_reverse.mp hx)
  rw [List.map_append] at hordered
  obtain ⟨-, -, hcross⟩ := List.pairwise_append.mp hordered
  exact ⟨fun hv => hreg (hcross _ hv _ hmem k (.inl rfl)),
    fun hw => hreg (hcross _ hw _ hmem k (.inr rfl))⟩

/-- A range that is read again, to a later end, gives what reading it once gives. -/
theorem synced_replay (hordered : ((A ++ (B ++ C)).map Prod.snd).Pairwise Precedes)
    (hone : ∀ k, .validated k ∈ (A ++ (B ++ C)).map Prod.snd →
      .withdrawn k ∉ (A ++ (B ++ C)).map Prod.snd) :
    synced (B ++ C) (replay (A ++ B)) = replay (A ++ (B ++ C)) := by
  funext k
  have hmem : ∀ y, y ∈ (A ++ (B ++ C)).map Prod.snd ↔
      y ∈ A.map Prod.snd ∨ y ∈ (B ++ C).map Prod.snd := by
    intro y
    rw [List.map_append, List.mem_append]
  unfold synced replay synced
  rw [lastRecord_append A (B ++ C), Option.or_none, Option.or_none]
  cases hlast : lastRecord k (B ++ C) with
  | some record =>
    obtain ⟨hv, hw⟩ := not_ended hordered hlast
    simp only [Option.some_or, Option.map_some, mark, hmem, hv, hw, false_or]
  | none =>
    have hB : lastRecord k B = none := by
      rw [lastRecord_append] at hlast
      exact (Option.or_eq_none_iff.mp hlast).2
    rw [lastRecord_append A B, hB, Option.none_or, Option.none_or]
    cases lastRecord k A with
    | none => rfl
    | some record =>
      have hBC : ∀ y, y ∈ B.map Prod.snd → y ∈ (B ++ C).map Prod.snd := by
        intro y hy
        rw [List.map_append]
        exact List.mem_append_left _ hy
      have hsplit : ∀ y, y ∉ (B ++ C).map Prod.snd →
          (y ∈ (A ++ B).map Prod.snd ↔ y ∈ A.map Prod.snd) := by
        intro y hy
        rw [List.map_append, List.mem_append]
        exact or_iff_left fun h => hy (hBC y h)
      rw [Option.map_some, Option.map_some, Option.map_some]
      refine congrArg some ?_
      by_cases hw : .withdrawn k ∈ (B ++ C).map Prod.snd
      · rw [mark_withdrawn hw, mark_withdrawn ((hmem _).mpr (.inr hw)), mark_status]
      · by_cases hv : .validated k ∈ (B ++ C).map Prod.snd
        · have hall := (hmem _).mpr (.inr hv)
          rw [mark_validated hv hw, mark_validated hall (hone k hall), mark_status]
        · simp only [mark, hmem, if_neg hw, if_neg hv, hsplit _ hw, hsplit _ hv, or_iff_left hw,
            or_iff_left hv]

end Replay

/-! ## The program -/

section Program

variable (logs : ℕ → List DepositLog) {chunkBlocks : ℕ} (rpc : RpcCall → Bool)

theorem fetchLogs_cases (hchunk : 0 < chunkBlocks) (event : EventKind) (fromBlock toBlock : ℕ) :
    fetchLogs logs chunkBlocks rpc event fromBlock toBlock =
        pure ((blocksIn logs fromBlock toBlock).filter fun x => decide (depositEvent x.2 = event)) ∨
      fetchLogs logs chunkBlocks rpc event fromBlock toBlock = Program.fail .rpc := by
  have hpage : ∀ a b, fetchPage logs rpc event a b =
      pure (blocksIn (fun n => (logs n).filter fun log => depositEvent log = event) a b) ∨
        fetchPage logs rpc event a b = Program.fail .rpc := by
    intro a b
    unfold fetchPage
    split
    · exact .inl rfl
    · exact .inr rfl
  rw [← blocksIn_filter logs fun log => decide (depositEvent log = event)]
  exact readPages_cases hchunk _ hpage toBlock (Nat.le_refl _)

/-- A range is read as a whole or nothing happens. -/
theorem syncDeposits_spec (hchunk : 0 < chunkBlocks) (fromBlock toBlock : ℕ)
    (deposits : DepositIndex) :
    syncDeposits logs chunkBlocks rpc fromBlock toBlock deposits =
        (.ok (), synced (blocksIn logs fromBlock toBlock) deposits) ∨
      syncDeposits logs chunkBlocks rpc fromBlock toBlock deposits = (.error .rpc, deposits) := by
  unfold syncDeposits
  rcases fetchLogs_cases logs rpc hchunk .depositAvailable fromBlock toBlock with havail | havail
  · rw [havail, Program.pure_bind]
    rcases fetchLogs_cases logs rpc hchunk .depositValidated fromBlock toBlock with hvalid | hvalid
    · rw [hvalid, Program.pure_bind]
      rcases fetchLogs_cases logs rpc hchunk .depositWithdrawn fromBlock toBlock with hgone | hgone
      · rw [hgone, Program.pure_bind]
        refine .inl ?_
        rw [← foldl_kinds]
        rw [← foldl_filter (p := fun log => decide (depositEvent log = .depositAvailable))
            (f := insertAvailable),
          ← foldl_filter (p := fun log => decide (depositEvent log = .depositValidated))
            (f := markValidated),
          ← foldl_filter (p := fun log => decide (depositEvent log = .depositWithdrawn))
            (f := markWithdrawn)]
        · rfl
        · rintro d ⟨block, log⟩ hlog
          cases log with
          | withdrawn n => exact absurd rfl (of_decide_eq_false hlog)
          | available _ _ _ _ => rfl
          | validated n => rfl
        · rintro d ⟨block, log⟩ hlog
          cases log with
          | validated n => exact absurd rfl (of_decide_eq_false hlog)
          | available _ _ _ _ => rfl
          | withdrawn n => rfl
        · rintro d ⟨block, log⟩ hlog
          cases log with
          | available _ _ _ _ => exact absurd rfl (of_decide_eq_false hlog)
          | validated n => rfl
          | withdrawn n => rfl
      · rw [hgone, Program.fail_bind]
        exact .inr rfl
    · rw [hvalid, Program.fail_bind]
      exact .inr rfl
  · rw [havail, Program.fail_bind]
    exact .inr rfl

end Program

end DepositIndex

/-! ## The mirror -/

/-- A deposit of the contract as the index shows it. -/
def shown (k : Bytes32) (d : Contract.Deposit) :
    Option (Bytes32 × U256 × Address × U256 × Contract.DepositStatus) :=
  if d.status = .none then none else some (k, d.value, d.recipient, d.assetId, d.status)

/-- The index has exactly the registered deposits, each with the contract's value, recipient,
asset id and status. -/
def Mirrors (index : DepositIndex) (deposits : Bytes32 → Contract.Deposit) : Prop :=
  ∀ k, (index k).map (fun r => (r.noteCommitment, r.value, r.recipient, r.assetId,
    r.status.toContract)) = shown k (deposits k)

namespace TokenChain

variable {chain : TokenChain}

/-- No deposit is recorded over one that has ended while it waited for its token. -/
def NeverOver (chain : TokenChain) : Prop :=
  ∀ n, Along (vaultStep chain.env) NotOver (Vault.start chain.deployed)
    ((List.range n).flatMap chain.blocks)

theorem before_succ (hcond : chain.NeverOver) (n : ℕ) :
    (chain.before (n + 1)).trace.logs = (chain.before n).trace.logs ++ chain.logs n := by
  have hwaiting : (chain.before n).trace.waiting = [] :=
    (journal_good chain.isDeployed (hcond n)).waiting (chain.idle n)
  have htrace : (chain.before n).trace =
      (⟨[], []⟩ : Trace).after (chain.before n).trace.logs := by
    rw [Trace.after, List.append_nil, List.map_nil, ← hwaiting]
  have hrun : chain.before (n + 1) =
      run (journalStep chain.env) (chain.before n) (chain.blocks n) := by
    rw [TokenHistory.before, List.range_succ, List.flatMap_append, List.flatMap_singleton, run_append]
    rfl
  have hafter := @run_after chain.env (chain.before n).trace.logs (chain.before n).machine
    ⟨[], []⟩ (chain.blocks n)
  rw [← htrace] at hafter
  rw [hrun, hafter]
  rfl

/-- A block without transactions. -/
theorem logs_of_empty {n : ℕ} (h : chain.blocks n = []) : chain.logs n = [] := by
  rw [TokenHistory.logs, h, run_nil]

theorem before_logs (hcond : chain.NeverOver) (n : ℕ) :
    (chain.before n).trace.logs = (List.range n).flatMap chain.logs := by
  induction n with
  | zero => rfl
  | succ n ih =>
    rw [before_succ hcond, ih, List.range_succ, List.flatMap_append, List.flatMap_singleton]

/-- The events up to block `n` tell the deposits after it. -/
theorem logGood (hcond : chain.NeverOver) (n : ℕ) :
    LogGood (chain.deposits n) ((blocksIn chain.logs 0 n).map Prod.snd) [] := by
  rw [blocksIn_map_snd, ← before_logs hcond]
  exact (journal_good chain.isDeployed (hcond (n + 1))).idle (chain.idle (n + 1))

end TokenChain

section Mirror

open DepositIndex

variable {chain : TokenChain} {k : Bytes32}

theorem lastRecord_registered (L : List (ℕ × DepositLog)) :
    (lastRecord k L).map (fun r => (r.value, r.recipient, r.assetId)) =
      registered k (L.map Prod.snd) := by
  induction L using List.reverseRecOn with
  | nil => rfl
  | append_singleton L x ih =>
    rw [lastRecord_append, lastRecord_singleton, List.map_append, registered_append,
      List.map_singleton, registered_singleton, ← ih]
    obtain ⟨block, log⟩ := x
    cases log with
    | available n value recipient assetId =>
      by_cases hn : n = k
      · simp only [recordOf, registration, if_pos hn, Option.some_or, Option.map_some]
      · simp only [recordOf, registration, if_neg hn, Option.none_or]
    | validated n => rfl
    | withdrawn n => rfl

/-- A record is filed under its own commitment, as pending. -/
theorem lastRecord_fields {L : List (ℕ × DepositLog)} {record : DepositRecord}
    (h : lastRecord k L = some record) : record.noteCommitment = k ∧ record.status = .pending := by
  obtain ⟨⟨block, log⟩, -, hrecord⟩ := List.exists_of_findSome?_eq_some h
  cases log with
  | available n value recipient assetId =>
    simp only [recordOf] at hrecord
    split at hrecord
    · rename_i hn
      cases hrecord
      exact ⟨hn, rfl⟩
    · cases hrecord
  | validated n => cases hrecord
  | withdrawn n => cases hrecord

/-- The replay of the events of a history shows its deposits. -/
theorem replay_mirrors {d : Bytes32 → Contract.Deposit} {L : List (ℕ × DepositLog)}
    (h : LogGood d (L.map Prod.snd) []) : Mirrors (replay L) d := by
  intro k
  have hkey := h.keys k
  have hregistered := hkey.registered
  have hwithdrawn := hkey.withdrawn
  rw [List.append_nil] at hwithdrawn
  rw [← lastRecord_registered] at hregistered
  unfold replay synced shown
  rw [Option.or_none, Option.map_map]
  cases hlast : lastRecord k L with
  | none =>
    rw [hlast, Option.map_none] at hregistered
    by_cases hnone : (d k).status = .none
    · rw [if_pos hnone]
      rfl
    · rw [if_neg hnone] at hregistered
      cases hregistered
  | some record =>
    rw [hlast, Option.map_some] at hregistered
    obtain ⟨hnote, hpending⟩ := lastRecord_fields hlast
    by_cases hnone : (d k).status = .none
    · rw [if_pos hnone] at hregistered
      cases hregistered
    · rw [if_neg hnone] at hregistered ⊢
      obtain ⟨hvalue, hrecipient, hasset⟩ :
          record.value = (d k).value ∧ record.recipient = (d k).recipient ∧
            record.assetId = (d k).assetId := by
        simpa only [Option.some.injEq, Prod.mk.injEq] using hregistered
      have hstatus : (mark k L record).status.toContract = (d k).status := by
        unfold mark
        simp only [hkey.validated, hwithdrawn]
        cases hst : (d k).status with
        | none => exact absurd hst hnone
        | pending => simp [hpending, DepositStatus.toContract]
        | validated => simp [DepositStatus.toContract]
        | withdrawn => simp [DepositStatus.toContract]
      have hrest : (mark k L record).noteCommitment = k ∧ (mark k L record).value = (d k).value ∧
          (mark k L record).recipient = (d k).recipient ∧
          (mark k L record).assetId = (d k).assetId := by
        unfold mark
        split_ifs <;> exact ⟨hnote, hvalue, hrecipient, hasset⟩
      obtain ⟨hn, hv, hr, ha⟩ := hrest
      simp only [Option.map_some, Function.comp_apply, hn, hv, hr, ha, hstatus]

/-- Reading the blocks after `position` from an index at a block not before it. -/
theorem synced_at (hcond : chain.NeverOver) {position m n : ℕ} (hm : position ≤ m) (hn : m ≤ n) :
    synced (blocksIn chain.logs (position + 1) n) (replay (blocksIn chain.logs 0 m)) =
      replay (blocksIn chain.logs 0 n) := by
  have hfirst := blocksIn_append chain.logs (a := 0) (Nat.zero_le (position + 1)) hm
  have hsecond := blocksIn_append chain.logs (a := position + 1) (by omega : position + 1 ≤ m + 1) hn
  have hall : blocksIn chain.logs 0 n = blocksIn chain.logs 0 position ++
      (blocksIn chain.logs (position + 1) m ++ blocksIn chain.logs (m + 1) n) := by
    rw [hsecond]
    exact (blocksIn_append chain.logs (Nat.zero_le _) (hm.trans hn)).symm
  have hgood := chain.logGood hcond n
  rw [← hfirst, ← hsecond, hall]
  rw [hall] at hgood
  refine synced_replay hgood.ordered fun k hv hw => ?_
  have hvalidated := (hgood.keys k).validated.mp hv
  have hwithdrawn := (hgood.keys k).withdrawn.mp (List.mem_append_left [] hw)
  rw [hvalidated] at hwithdrawn
  cases hwithdrawn

/-- In a history in which no deposit is recorded over one that has ended while it waited for its
token: after the genesis sync, and after any later attempts, successful or not, every successful
`sync_deposits` leaves an index of exactly the deposits registered up to the end of its range,
each with the value, recipient, asset id and status it has there. -/
theorem deposits_mirrored (chain : TokenChain) (chunkBlocks genesisBlock latestBlock : ℕ)
    (hchunk : 0 < chunkBlocks) (hgenesis : ∀ n < genesisBlock, chain.blocks n = [])
    (hcond : chain.NeverOver) (rpc : RpcCall → Bool) (index : DepositIndex)
    (hfirst : DepositIndex.syncDeposits chain.logs chunkBlocks rpc genesisBlock latestBlock (fun _ => none) =
      (.ok (), index)) :
    Mirrors index (chain.deposits latestBlock) ∧
    ∀ (attempts : List (Attempt (RpcCall → Bool))) (last : Attempt (RpcCall → Bool)),
      HeadsFrom latestBlock (attempts ++ [last]) →
      ∀ f, f = (Follower.mk latestBlock index).follow (DepositIndex.syncDeposits chain.logs chunkBlocks) attempts →
        (f.attempt (DepositIndex.syncDeposits chain.logs chunkBlocks) last).1 = true →
        Mirrors (f.attempt (DepositIndex.syncDeposits chain.logs chunkBlocks) last).2.state
          (chain.deposits last.head) := by
  have hmirror : ∀ n, Mirrors (replay (blocksIn chain.logs 0 n)) (chain.deposits n) := fun n =>
    replay_mirrors (chain.logGood hcond n)
  have hstart : index = replay (blocksIn chain.logs 0 latestBlock) := by
    rcases DepositIndex.syncDeposits_spec chain.logs rpc hchunk genesisBlock latestBlock fun _ => none with h | h
    · rw [hfirst] at h
      obtain rfl := (Prod.mk.inj h).2
      rw [blocksIn_first fun n hn => chain.logs_of_empty (hgenesis n hn)]
      rfl
    · rw [hfirst] at h
      cases h
  subst hstart
  refine ⟨hmirror latestBlock, fun attempts last hheads f hf hread => ?_⟩
  subst hf
  have hat := follow_reads (P := fun n index => index = replay (blocksIn chain.logs 0 n)) rfl hheads
    ?_ ?_ hread
  · rw [hat]
    exact hmirror last.head
  · rintro rpc k m n - hm hn s s' rfl hrun
    rcases DepositIndex.syncDeposits_spec chain.logs rpc hchunk (k + 1) n (replay (blocksIn chain.logs 0 m))
      with h | h
    · rw [hrun] at h
      obtain rfl := (Prod.mk.inj h).2
      exact synced_at hcond hm hn
    · rw [hrun] at h
      cases h
  · rintro rpc k m n - - - s s' e - hrun
    rcases DepositIndex.syncDeposits_spec chain.logs rpc hchunk (k + 1) n s with h | h
    · rw [hrun] at h
      cases h
    · rw [hrun] at h
      exact (Prod.mk.inj h).2

end Mirror

/-! ## A deposit inside a deposit of the same commitment -/

section Sample

theorem flatMap_single {α : Type} (l : List α) (n : ℕ) :
    (List.range n).flatMap (fun m => if m = 1 then l else []) = if n < 2 then [] else l := by
  induction n with
  | zero => rfl
  | succ n ih =>
    rw [List.range_succ, List.flatMap_append, List.flatMap_singleton, ih]
    rcases Nat.lt_trichotomy n 1 with hn | rfl | hn
    · rw [if_pos (by omega), if_neg (by omega), if_pos (by omega), List.append_nil]
    · rfl
    · rw [if_neg (by omega), if_neg (by omega), if_neg (by omega), List.append_nil]

/-- A history with one block of transactions. -/
def oneBlock (acts : List VaultAct)
    (hidle : (run (journalStep sampleEnv) (.start sampleState) acts).machine.stack = []) :
    TokenChain where
  env := sampleEnv
  deployed := sampleState
  blocks := fun n => if n = 1 then acts else []
  isDeployed := sampleState_deployed
  idle := by
    intro n
    unfold TokenHistory.before
    dsimp only
    rw [flatMap_single]
    split_ifs
    · rfl
    · exact hidle

/-- A depositor who is called by the token deposits the same commitment and takes it back. -/
def depositOver : List VaultAct :=
  [.enter ⟨⟨1, 1⟩, .registerAsset 1 9⟩,
    .enter ⟨⟨7, 1⟩, .depositAndRegister 5 1 10 ⟨0, true, 0⟩⟩, .resume true,
      .enter ⟨⟨7, 1⟩, .depositAndRegister 5 1 10 ⟨0, true, 0⟩⟩, .resume true,
        .receive 9 4, .resume true, .resume true,
      .enter ⟨⟨7, 1⟩, .withdrawPendingDeposit 5 true⟩, .lose 9 4, .resume true,
      .receive 9 3, .resume true, .resume true]

def overChain : TokenChain := oneBlock depositOver rfl

theorem overChain_logs : overChain.logs 1 =
    [.available 5 4 7 1, .withdrawn 5, .available 5 3 7 1] := by decide +kernel

theorem overChain_status : (overChain.deposits 1 5).status = .pending := by decide +kernel

/-- The index says that the deposit is withdrawn, and the contract has it pending. -/
theorem deposits_unmirrored : (∀ n < 0, overChain.blocks n = []) ∧
    ∃ index, DepositIndex.syncDeposits overChain.logs 1 (fun _ => true) 0 1 (fun _ => none) =
        (.ok (), index) ∧
      (index 5).map DepositRecord.status = some .withdrawn ∧
      (overChain.deposits 1 5).status = .pending ∧
      ¬ Mirrors index (overChain.deposits 1) := by
  refine ⟨fun n hn => absurd hn (Nat.not_lt_zero n), ?_⟩
  have hfirst : overChain.logs 0 = [] := overChain.logs_of_empty rfl
  have hlogs : blocksIn overChain.logs 0 1 =
      [(1, .available 5 4 7 1), (1, .withdrawn 5), (1, .available 5 3 7 1)] := by
    have hrange : List.range' 0 (1 + 1 - 0) = [0, 1] := rfl
    rw [blocksIn, hrange, List.flatMap_cons, List.flatMap_singleton, hfirst, overChain_logs]
    rfl
  have hstatus : (DepositIndex.synced (blocksIn overChain.logs 0 1) (fun _ => none) 5).map
      DepositRecord.status = some .withdrawn := by
    rw [hlogs]
    rfl
  have hcontract := overChain_status
  refine ⟨_, ?_, hstatus, hcontract, fun hmirrors => ?_⟩
  · rcases DepositIndex.syncDeposits_spec overChain.logs (fun _ => true) Nat.one_pos 0 1
      (fun _ => none) with h | h
    · exact h
    · cases h
  · have hshown := hmirrors 5
    generalize DepositIndex.synced (blocksIn overChain.logs 0 1) (fun _ => none) 5 = record
      at hstatus hshown
    cases record with
    | none => cases hstatus
    | some record =>
      have hrecord : record.status = .withdrawn := Option.some.inj hstatus
      rw [shown, hcontract, if_neg Contract.DepositStatus.noConfusion, Option.map_some, hrecord,
        Option.some.injEq, Prod.mk.injEq, Prod.mk.injEq, Prod.mk.injEq, Prod.mk.injEq] at hshown
      obtain ⟨-, -, -, -, hend⟩ := hshown
      cases hend

/-- One deposit, which is withdrawn in the same block. -/
def depositBack : List VaultAct :=
  [.enter ⟨⟨1, 1⟩, .registerAsset 1 9⟩,
    .enter ⟨⟨7, 1⟩, .depositAndRegister 5 1 10 ⟨0, true, 0⟩⟩, .resume true,
      .receive 9 4, .resume true, .resume true,
    .enter ⟨⟨7, 1⟩, .withdrawPendingDeposit 5 true⟩, .lose 9 4, .resume true]

def backChain : TokenChain := oneBlock depositBack rfl

theorem backChain_neverOver : backChain.NeverOver := by
  intro n
  unfold backChain oneBlock
  dsimp only
  rw [flatMap_single]
  split_ifs
  · trivial
  · refine ⟨trivial, trivial, trivial, trivial, trivial, ?_, trivial, trivial, ?_, trivial⟩
    · intro x hx k hreg
      obtain rfl := List.mem_singleton.mp hx
      have hk : (5 : Bytes32) = k := by
        by_contra hne
        exact hreg (if_neg hne)
      subst hk
      decide +kernel
    · intro x hx
      cases hx

/-- A sync without a node, then one with all calls. -/
theorem deposits_mirrored_sample : ∃ index f,
    DepositIndex.syncDeposits backChain.logs 1 (fun _ => true) 0 0 (fun _ => none) =
      (.ok (), index) ∧
    f = (Follower.mk 0 index).follow (DepositIndex.syncDeposits backChain.logs 1)
      [⟨1, fun _ => false, true, true⟩] ∧
    Mirrors (f.attempt (DepositIndex.syncDeposits backChain.logs 1) ⟨1, fun _ => true, true, true⟩).2.state
      (backChain.deposits 1) := by
  rcases DepositIndex.syncDeposits_spec backChain.logs (fun _ => true) Nat.one_pos 0 0
    (fun _ => none) with h | h
  · obtain ⟨-, hnext⟩ := deposits_mirrored backChain 1 0 0 Nat.one_pos
      (fun n hn => absurd hn (Nat.not_lt_zero n)) backChain_neverOver (fun _ => true) _ h
    exact ⟨_, _, h, rfl, hnext [⟨1, fun _ => false, true, true⟩] ⟨1, fun _ => true, true, true⟩
      (by simp [HeadsFrom]) _ rfl rfl⟩
  · cases h

end Sample

end Doxa.StateSync
