import Doxa.Contract.Decoding
import Doxa.StateSync.Mirror

/-!
# Runs of `poll_sync`

A run over a range of blocks ends in one of three ways: the range is synced, or a call failed
before the first confirmation and the state has followed the history as far as before, or
everything was confirmed and a call failed after that.

In the last case `last_synced_block` stays behind the tree. The runs that follow read the same
range again, and either do not find the preimage of a batch that is confirmed already or
confirm it a second time. The main theorem is about runs that do not fail there, on a history
whose logs can be read; the first batch of a small history shows what happens otherwise.
-/

namespace Doxa.StateSync

open Lib Trees Contract Function

/-! ## One range -/

section Range

variable {perm : State → State} {chain : Chain} {chunkBlocks : ℕ} {poll : Poll}
  {s₀ : StateSyncState}

/-- The state has followed the history up to block `n`. -/
def UpTo (perm : State → State) (chain : Chain) (n : ℕ) (s : StateSyncState) : Prop :=
  MirrorInv perm chain (chain.before n).2 (provens (chain.before n).2) s

theorem collectProvenBatches_triple (hdeployed : Deployed chain.env chain.deployed)
    (hchunk : 0 < chunkBlocks) {P : StateSyncState → Prop} (fromBlock toBlock : ℕ) :
    Program.Triple P (collectProvenBatches chain chunkBlocks poll fromBlock toBlock)
      (fun entries s => P s ∧ sortByLeafIndex entries =
          (provens (chain.logsIn fromBlock toBlock)).filterMap decodeProvenLog ∧
        ∀ kind, Fetched chunkBlocks poll (.proven kind) fromBlock toBlock)
      (fun e s => e = .rpc ∧ P s ∧
        ¬ ∀ kind, Fetched chunkBlocks poll (.proven kind) fromBlock toBlock) := by
  unfold collectProvenBatches
  refine triple_fetchLogs chunkBlocks poll chain hchunk (fun htx => ?_) fun hnot s hs =>
    ⟨rfl, hs, fun h => hnot (h .transaction)⟩
  refine triple_fetchLogs chunkBlocks poll chain hchunk (fun hbridge => ?_) fun hnot s hs =>
    ⟨rfl, hs, fun h => hnot (h .bridgeTx)⟩
  refine Program.triple_pure fun s hs =>
    ⟨hs, sortByLeafIndex_collected hdeployed fromBlock toBlock, fun kind => ?_⟩
  cases kind with
  | transaction => exact htx
  | bridgeTx => exact hbridge

/-- The subpool roots in the logs are digests. -/
theorem checkSubpoolRoots_triple {P : StateSyncState → Prop} {E : SyncError → StateSyncState → Prop}
    (event : EventKind) {fromBlock toBlock : ℕ}
    (hupdated : ∀ root, .subpoolRootUpdated root ∈ chain.logsIn fromBlock toBlock →
      (u256LeToHash root).isSome) :
    Program.Triple P (Program.forEach checkSubpoolRoot (chain.getLogs event fromBlock toBlock))
      (fun _ s => P s) E := by
  refine Program.triple_forEach _ _ (fun _ => P) ?_
  intro done log rest hsplit
  have hlog : log ∈ chain.logsIn fromBlock toBlock := by
    refine List.mem_of_mem_filter (p := fun log => log.event = event) ?_
    rw [← Chain.getLogs, hsplit]
    exact List.mem_append_right done List.mem_cons_self
  cases log with
  | subpoolRootUpdated root =>
    rw [checkSubpoolRoot, if_pos (hupdated root hlog)]
    exact Program.triple_pure fun _ h => h
  | _ => exact Program.triple_pure fun _ h => h

/-- The calls of `sync_config_tree` are among the late ones. -/
theorem syncConfigTree_triple (hchunk : 0 < chunkBlocks) {P : StateSyncState → Prop}
    (initial : Bool) {fromBlock toBlock : ℕ}
    (hupdated : initial = false → ∀ root, .subpoolRootUpdated root ∈ chain.logsIn fromBlock toBlock →
      (u256LeToHash root).isSome) :
    Program.Triple P (syncConfigTree chain chunkBlocks poll initial fromBlock toBlock)
      (fun _ s => P s ∧ Fetched chunkBlocks poll .subpoolOwnerAssigned fromBlock toBlock ∧
        Fetched chunkBlocks poll .subpoolRootUpdated fromBlock toBlock ∧
        (initial = true → poll.rpc .subpoolRoots = true))
      (fun e s => e = .rpc ∧ P s ∧ ¬ LateCalls chunkBlocks poll initial fromBlock toBlock) := by
  unfold syncConfigTree
  refine triple_fetchLogs chunkBlocks poll chain hchunk (fun hassigned => ?_) fun hnot s hs =>
    ⟨rfl, hs, fun h => hnot (h.fetched _ (by simp))⟩
  refine triple_fetchLogs chunkBlocks poll chain hchunk (fun hroots => ?_) fun hnot s hs =>
    ⟨rfl, hs, fun h => hnot (h.fetched _ (by simp))⟩
  cases initial with
  | true =>
    rw [if_pos rfl]
    cases hrpc : poll.rpc .subpoolRoots with
    | true =>
      rw [call_true poll hrpc]
      exact Program.triple_pure fun s hs => ⟨hs, hassigned, hroots, fun _ => rfl⟩
    | false =>
      rw [call_false poll hrpc]
      refine Program.triple_fail fun s hs => ⟨rfl, hs, fun h => ?_⟩
      rw [h.roots rfl] at hrpc
      cases hrpc
  | false =>
    refine (checkSubpoolRoots_triple _ (hupdated rfl)).conseq (fun _ h => h) (fun _ s hs => ?_)
      fun _ _ h => h
    exact ⟨hs, hassigned, hroots, fun h => Bool.noConfusion h⟩

theorem syncDeposits_triple (hchunk : 0 < chunkBlocks) {P : StateSyncState → Prop}
    (initial : Bool) (fromBlock toBlock : ℕ)
    (hP : ∀ s, P s → Fetched chunkBlocks poll .subpoolOwnerAssigned fromBlock toBlock ∧
        Fetched chunkBlocks poll .subpoolRootUpdated fromBlock toBlock ∧
        (initial = true → poll.rpc .subpoolRoots = true)) :
    Program.Triple P (syncDeposits chain chunkBlocks poll fromBlock toBlock)
      (fun _ s => P s ∧ LateCalls chunkBlocks poll initial fromBlock toBlock)
      (fun e s => e = .rpc ∧ P s ∧ ¬ LateCalls chunkBlocks poll initial fromBlock toBlock) := by
  unfold syncDeposits
  refine triple_fetchLogs chunkBlocks poll chain hchunk (fun havailable => ?_) fun hnot s hs =>
    ⟨rfl, hs, fun h => hnot (h.fetched _ (by simp))⟩
  refine triple_fetchLogs chunkBlocks poll chain hchunk (fun hvalidated => ?_) fun hnot s hs =>
    ⟨rfl, hs, fun h => hnot (h.fetched _ (by simp))⟩
  refine triple_fetchLogs chunkBlocks poll chain hchunk (fun hwithdrawn => ?_) fun hnot s hs =>
    ⟨rfl, hs, fun h => hnot (h.fetched _ (by simp))⟩
  refine Program.triple_pure fun s hs => ⟨hs, ?_, (hP s hs).2.2⟩
  intro event hevent
  obtain ⟨hassigned, hupdated, -⟩ := hP s hs
  simp only [List.mem_cons, List.not_mem_nil, or_false] at hevent
  rcases hevent with rfl | rfl | rfl | rfl | rfl
  · exact hassigned
  · exact hupdated
  · exact havailable
  · exact hvalidated
  · exact hwithdrawn

/-- A range is synced, or nothing of it is confirmed, or all of it and then a late call fails;
`I n` is about states that have followed the history up to block `n`. -/
def RangeSynced (I : ℕ → StateSyncState → Prop) (perm : State → State) (chain : Chain)
    (chunkBlocks : ℕ) (poll : Poll) (initial : Bool) (genesisBlock searchTo fromBlock toBlock : ℕ)
    (s₀ : StateSyncState) : Prop :=
  Program.Triple (fun s => s = s₀)
    (syncRange perm chain chunkBlocks poll initial genesisBlock searchTo fromBlock toBlock)
    (fun _ s => I (max fromBlock (toBlock + 1)) s ∧ s.lastSyncedBlock = toBlock ∧
      EarlyCalls chain chunkBlocks poll s₀ fromBlock toBlock ∧
      LateCalls chunkBlocks poll initial fromBlock toBlock)
    (fun e s => e = .rpc ∧ s.lastSyncedBlock = s₀.lastSyncedBlock ∧
      ((I fromBlock s ∧ ¬ EarlyCalls chain chunkBlocks poll s₀ fromBlock toBlock) ∨
        (I (max fromBlock (toBlock + 1)) s ∧
          EarlyCalls chain chunkBlocks poll s₀ fromBlock toBlock ∧
          ¬ LateCalls chunkBlocks poll initial fromBlock toBlock)))

/-- `Mid` holds from the last submission to the first confirmation. -/
theorem syncRange_rule {I : ℕ → StateSyncState → Prop} (Mid : StateSyncState → Prop)
    (hdeployed : Deployed chain.env chain.deployed) (hchunk : 0 < chunkBlocks) (initial : Bool)
    (genesisBlock searchTo fromBlock toBlock : ℕ)
    (hsubmit : Program.Triple (fun s => s = s₀)
      (processNewSubmissions chain chunkBlocks poll fromBlock toBlock)
      (fun _ s => Mid s ∧ (∀ kind, Fetched chunkBlocks poll (.submitted kind) fromBlock toBlock) ∧
        ∀ kind pi, pi ∈ (submissions kind (chain.logsIn fromBlock toBlock)).map Prod.fst →
          ¬ Known s₀ kind pi → poll.rpc (.submissionInput kind pi) = true)
      (fun e s => e = .rpc ∧ I fromBlock s ∧ s.lastSyncedBlock = s₀.lastSyncedBlock ∧
        ¬ EarlyCalls chain chunkBlocks poll s₀ fromBlock toBlock))
    (hback : ∀ s, Mid s → I fromBlock s ∧ s.lastSyncedBlock = s₀.lastSyncedBlock)
    (hconfirm : Program.Triple Mid
      (Program.forEach (confirmEntry perm chain chunkBlocks poll genesisBlock searchTo)
        ((provens (chain.logsIn fromBlock toBlock)).filterMap decodeProvenLog))
      (fun _ s => I (max fromBlock (toBlock + 1)) s ∧ s.lastSyncedBlock = s₀.lastSyncedBlock)
      (fun _ _ => False))
    (hupdated : initial = false → ∀ root, .subpoolRootUpdated root ∈ chain.logsIn fromBlock toBlock →
      (u256LeToHash root).isSome)
    (hlast : ∀ s, I (max fromBlock (toBlock + 1)) s →
      I (max fromBlock (toBlock + 1)) { s with lastSyncedBlock := toBlock }) :
    RangeSynced I perm chain chunkBlocks poll initial genesisBlock searchTo fromBlock toBlock s₀ := by
  unfold RangeSynced syncRange
  -- nothing is confirmed before the proven batches are collected
  refine Program.triple_bind (hsubmit.conseq (fun _ h => h) (fun _ _ h => h) ?_) fun _ => ?_
  · rintro e s ⟨he, hstart, hsame, hearly⟩
    exact ⟨he, hsame, .inl ⟨hstart, hearly⟩⟩
  refine Program.triple_bind ((collectProvenBatches_triple hdeployed hchunk fromBlock
    toBlock).conseq (fun _ h => h) (fun _ _ h => h) ?_) fun proven => ?_
  · rintro e s ⟨he, ⟨hmid, -, -⟩, hnot⟩
    obtain ⟨hstart, hsame⟩ := hback s hmid
    exact ⟨he, hsame, .inl ⟨hstart, fun h => hnot h.proven⟩⟩
  -- from here on the early calls are known to have succeeded
  by_cases hearly : EarlyCalls chain chunkBlocks poll s₀ fromBlock toBlock
  swap
  · refine Program.triple_absurd ?_
    rintro s ⟨⟨-, hsubmitted, hinputs⟩, -, hproven⟩
    exact hearly ⟨hsubmitted, hinputs, hproven⟩
  by_cases hsorted : sortByLeafIndex proven =
      (provens (chain.logsIn fromBlock toBlock)).filterMap decodeProvenLog
  swap
  · exact Program.triple_absurd fun s hs => hsorted hs.2.1
  rw [hsorted]
  refine Program.triple_bind (hconfirm.conseq (fun s hs => hs.1.1) (fun _ _ h => h)
    fun _ _ h => h.elim) fun _ => ?_
  refine Program.triple_bind ((syncConfigTree_triple hchunk initial hupdated).conseq
    (fun _ h => h) (fun _ _ h => h) ?_) fun _ => ?_
  · rintro e s ⟨he, ⟨hend, hsame⟩, hlate⟩
    exact ⟨he, hsame, .inr ⟨hend, hearly, hlate⟩⟩
  refine Program.triple_bind ((syncDeposits_triple hchunk initial fromBlock toBlock
    fun _ h => h.2).conseq (fun _ h => h) (fun _ _ h => h) ?_) fun _ => ?_
  · rintro e s ⟨he, ⟨⟨hend, hsame⟩, -⟩, hlate⟩
    exact ⟨he, hsame, .inr ⟨hend, hearly, hlate⟩⟩
  refine Program.triple_change (fun s s' hs hs' => ?_) fun s e _ herror => by cases herror
  cases hs'
  exact ⟨hlast s hs.1.1.1, rfl, hearly, hs.2⟩

/-- The three ways a range can go. -/
theorem RangeSynced.cases {I : ℕ → StateSyncState → Prop} {initial : Bool}
    {genesisBlock searchTo fromBlock toBlock : ℕ}
    (h : RangeSynced I perm chain chunkBlocks poll initial genesisBlock searchTo fromBlock
      toBlock s₀) :
    ∃ s, (syncRange perm chain chunkBlocks poll initial genesisBlock searchTo fromBlock toBlock
          s₀ = (.ok (), s) ∧
        I (max fromBlock (toBlock + 1)) s ∧ s.lastSyncedBlock = toBlock ∧
        EarlyCalls chain chunkBlocks poll s₀ fromBlock toBlock ∧
        LateCalls chunkBlocks poll initial fromBlock toBlock) ∨
      (syncRange perm chain chunkBlocks poll initial genesisBlock searchTo fromBlock toBlock
          s₀ = (.error .rpc, s) ∧
        I fromBlock s ∧ s.lastSyncedBlock = s₀.lastSyncedBlock ∧
        ¬ EarlyCalls chain chunkBlocks poll s₀ fromBlock toBlock) ∨
      (syncRange perm chain chunkBlocks poll initial genesisBlock searchTo fromBlock toBlock
          s₀ = (.error .rpc, s) ∧
        I (max fromBlock (toBlock + 1)) s ∧
        s.lastSyncedBlock = s₀.lastSyncedBlock ∧
        EarlyCalls chain chunkBlocks poll s₀ fromBlock toBlock ∧
        ¬ LateCalls chunkBlocks poll initial fromBlock toBlock) := by
  rcases hrun : syncRange perm chain chunkBlocks poll initial genesisBlock searchTo fromBlock
    toBlock s₀ with ⟨result, s⟩
  refine ⟨s, ?_⟩
  cases result with
  | ok a => exact .inl ⟨rfl, h.ok s₀ rfl a s hrun⟩
  | error e =>
    obtain ⟨rfl, hlast, ⟨hup, hearly⟩ | ⟨hup, hearly, hlate⟩⟩ := h.error s₀ rfl e s hrun
    · exact .inr (.inl ⟨rfl, hup, hlast, hearly⟩)
    · exact .inr (.inr ⟨rfl, hup, hlast, hearly, hlate⟩)

/-- Fewer submissions have been read. -/
theorem UpTo.fewerLogs {fromBlock toBlock : ℕ} {P : List Proven} {s : StateSyncState}
    (h : MirrorInv perm chain (chain.before (max fromBlock (toBlock + 1))).2 P s) :
    MirrorInv perm chain (chain.before fromBlock).2 P s := by
  refine h.withLogs fun kind pi hpi hsettled => h.pending kind pi ?_ hsettled
  rw [chain.submissions_before, List.map_append]
  exact List.mem_append_left _ hpi

variable (poll) in
theorem syncRange_upTo (hdeployed : Deployed chain.env chain.deployed) (hread : Readable chain)
    (htx : TxFirst chain) (hchunk : 0 < chunkBlocks) (initial : Bool)
    (genesisBlock searchTo fromBlock toBlock : ℕ) (h₀ : UpTo perm chain fromBlock s₀) :
    RangeSynced (UpTo perm chain) perm chain chunkBlocks poll initial genesisBlock searchTo
      fromBlock toBlock s₀ := by
  refine syncRange_rule (fun s => MirrorInv perm chain
      (chain.before (max fromBlock (toBlock + 1))).2 (provens (chain.before fromBlock).2) s ∧
      s.lastSyncedBlock = s₀.lastSyncedBlock) hdeployed hchunk initial genesisBlock searchTo
    fromBlock toBlock ?_ (fun s hs => ⟨UpTo.fewerLogs hs.1, hs.2⟩) ?_ ?_
    fun s hs => hs.congr rfl rfl rfl
  · refine (processNewSubmissions_triple poll hdeployed hread hchunk fromBlock toBlock h₀).conseq
      (fun _ h => h) (fun _ s hs => ?_) fun _ _ h => h
    exact ⟨⟨hs.1, hs.2.1⟩, hs.2.2⟩
  · exact confirmBatches_triple hdeployed hread htx fromBlock toBlock genesisBlock searchTo
      s₀.lastSyncedBlock
  · intro _ root hroot
    refine hread.updated (max fromBlock (toBlock + 1)) root ?_
    rw [← chain.before_logsIn]
    exact List.mem_append_right _ hroot

end Range

/-! ## The leaves -/

section Leaves

variable {perm : State → State} {chain : Chain} {s : StateSyncState}

theorem length_content (data : Bytes) : data.content.length = data.length := by
  rw [Bytes.content, List.length_map, List.length_range]

theorem byteOf_content {data : Bytes} {i : ℕ} (hi : i < data.length) :
    byteOf data.content i = data.byte i := by
  unfold byteOf Bytes.content
  rw [List.getD_eq_getElem?_getD, List.getElem?_map, List.getElem?_range hi]
  rfl

/-- The root in the header of a proven batch is the leaf the contract appended for it. -/
theorem packLE_header {data : Bytes} {root : HashOut} (hlength : 32 ≤ data.content.length)
    (h : readHash data.content 0 = some root) : batchRoot data = packLE root := by
  refine glHashToU256_digest fun i => ?_
  have hi := i.isLt
  have hlength' : 32 ≤ data.length := by
    rw [length_content] at hlength
    exact hlength
  refine ((fieldsAt_of_readHash h (by omega)) i).congr fun k hk => ?_
  exact (byteOf_content (by omega)).symm

theorem UpTo.leaves (hdeployed : Deployed chain.env chain.deployed) (hcoll : NoCollision chain)
    {n : ℕ} (h : UpTo perm chain n s) :
    s.stateTree.leaves.map packLE =
      (List.range (chain.before n).1.imt.leafCount).map (chain.before n).1.imt.leaves := by
  obtain ⟨ds, hrep, hheaders⟩ := h.tree
  have hinv := chain.before_inv hdeployed n
  have hcount := congrArg List.length hinv.indices
  rw [List.length_map, List.length_range] at hcount
  rw [hrep.leaves]
  apply List.ext_getElem
  · rw [List.length_map, List.length_map, List.length_range, hheaders.length_eq, hcount]
  · intro j hj hj'
    rw [List.length_map] at hj
    have hjP : j < (provens (chain.before n).2).length := by
      rw [← hheaders.length_eq]
      exact hj
    rw [List.getElem_map, List.getElem_map, List.getElem_range]
    obtain ⟨c, k, data, hhas, hproves, hpi, hleaf⟩ :=
      hinv.leaves j _ (List.getElem?_eq_getElem hjP)
    obtain ⟨preimage, hpreimage, hroot⟩ := hheaders.get hj hjP
    obtain ⟨c', k', data', hhas', hsubmits, hpi', -, rfl⟩ := hpreimage.submitted
    have hcontent : data'.content = data.content := by
      refine hcoll c' c k' k data' data hhas' hhas hsubmits hproves ?_
      rw [hpi', hpi]
      rfl
    rw [hleaf]
    refine (packLE_header ?_ ?_).symm
    · rw [← hcontent]
      exact hpreimage.length
    · rw [← hcontent]
      exact hroot

end Leaves

/-! ## Runs -/

/-- A run that has a batch to confirm and makes its calls up to there makes the calls after it
too. -/
def PollSafe (chain : Chain) (chunkBlocks : ℕ) (poll : Poll) (s : StateSyncState) : Prop :=
  poll.rpc .blockNumber = true →
    EarlyCalls chain chunkBlocks poll s (s.lastSyncedBlock + 1) poll.toBlock →
    provens (chain.logsIn (s.lastSyncedBlock + 1) poll.toBlock) ≠ [] →
    LateCalls chunkBlocks poll false (s.lastSyncedBlock + 1) poll.toBlock

/-- Every run is safe in the state it starts from. -/
def Safe (perm : State → State) (chain : Chain) (chunkBlocks genesisBlock : ℕ) :
    Service → List Poll → Prop
  | _, [] => True
  | service, poll :: polls => (∀ s ∈ service, PollSafe chain chunkBlocks poll s) ∧
    Safe perm chain chunkBlocks genesisBlock
      (servePoll perm chain chunkBlocks poll genesisBlock service).2 polls

section Runs

variable {perm : State → State} {chain : Chain} {chunkBlocks genesisBlock : ℕ} {poll : Poll}
  {s : StateSyncState}

theorem servePoll_of_result {result : Except SyncError Unit} {s' : StateSyncState}
    (h : pollSync perm chain chunkBlocks poll genesisBlock s = (result, s'))
    (hresult : result ≠ .error .panic) :
    servePoll perm chain chunkBlocks poll genesisBlock (some s) = (result, some s') := by
  unfold servePoll
  dsimp only
  rw [h]
  split
  · rename_i hpanic
    cases hpanic
    exact absurd rfl hresult
  · rename_i hother
    cases hother
    rfl

theorem pollSync_start : pollSync perm chain chunkBlocks poll genesisBlock s =
    (call poll .blockNumber >>= fun _ : Unit => if poll.toBlock ≤ s.lastSyncedBlock then pure ()
      else syncRange perm chain chunkBlocks poll false genesisBlock s.lastSyncedBlock
        (s.lastSyncedBlock + 1) poll.toBlock : SyncProgram Unit) s := rfl

/-- What `poll_sync` does past the number of the latest block. -/
theorem pollSync_eq (hrpc : poll.rpc .blockNumber = true) (hnew : s.lastSyncedBlock < poll.toBlock) :
    pollSync perm chain chunkBlocks poll genesisBlock s =
      syncRange perm chain chunkBlocks poll false genesisBlock s.lastSyncedBlock
        (s.lastSyncedBlock + 1) poll.toBlock s := by
  rw [pollSync_start, call_true poll hrpc, Program.pure_bind, if_neg (Nat.not_le_of_lt hnew)]

theorem pollSync_idle (hrpc : poll.rpc .blockNumber = true) (hold : poll.toBlock ≤ s.lastSyncedBlock) :
    pollSync perm chain chunkBlocks poll genesisBlock s = (.ok (), s) := by
  rw [pollSync_start, call_true poll hrpc, Program.pure_bind, if_pos hold]
  rfl

theorem pollSync_offline (hrpc : poll.rpc .blockNumber = false) :
    pollSync perm chain chunkBlocks poll genesisBlock s = (.error .rpc, s) := by
  rw [pollSync_start, call_false poll hrpc, Program.fail_bind]
  rfl

theorem lateCalls_of_rpc {initial : Bool} {fromBlock toBlock : ℕ}
    (h : ∀ c, poll.rpc c = true) : LateCalls chunkBlocks poll initial fromBlock toBlock :=
  ⟨fun _ _ _ _ => h _, fun _ => h _⟩

theorem earlyCalls_of_rpc {fromBlock toBlock : ℕ} (h : ∀ c, poll.rpc c = true) :
    EarlyCalls chain chunkBlocks poll s fromBlock toBlock :=
  ⟨fun _ _ _ => h _, fun _ _ _ _ => h _, fun _ _ _ => h _⟩

/-- A safe run keeps an invariant of the state and the blocks it has followed, and succeeds when
its calls do. -/
theorem servePoll_rule {I : ℕ → StateSyncState → Prop}
    (hrange : RangeSynced I perm chain chunkBlocks poll false genesisBlock s.lastSyncedBlock
      (s.lastSyncedBlock + 1) poll.toBlock s)
    (hback : ∀ s', provens (chain.logsIn (s.lastSyncedBlock + 1) poll.toBlock) = [] →
      I (max (s.lastSyncedBlock + 1) (poll.toBlock + 1)) s' → I (s.lastSyncedBlock + 1) s')
    (h : I (s.lastSyncedBlock + 1) s) (hsafe : PollSafe chain chunkBlocks poll s) :
    ∃ result s', servePoll perm chain chunkBlocks poll genesisBlock (some s) =
        (result, some s') ∧ I (s'.lastSyncedBlock + 1) s' ∧
      s.lastSyncedBlock ≤ s'.lastSyncedBlock ∧ (result = .ok () ∨ result = .error .rpc) ∧
      ((∀ c, poll.rpc c = true) →
        result = .ok () ∧ s'.lastSyncedBlock = max s.lastSyncedBlock poll.toBlock) := by
  cases hrpc : poll.rpc .blockNumber with
  | false =>
    refine ⟨_, s, servePoll_of_result (pollSync_offline hrpc) (by decide), h, le_rfl, .inr rfl,
      fun hall => ?_⟩
    rw [hall] at hrpc
    cases hrpc
  | true =>
    rcases Nat.lt_or_ge s.lastSyncedBlock poll.toBlock with hnew | hold
    · have hend : max (s.lastSyncedBlock + 1) (poll.toBlock + 1) = poll.toBlock + 1 :=
        max_eq_right (by omega)
      obtain ⟨s', ⟨hrun, hup, hlast, -⟩ | ⟨hrun, hup, hlast, hearly⟩ |
        ⟨hrun, hup, hlast, hearly, hlate⟩⟩ := hrange.cases
      all_goals
        rw [← pollSync_eq hrpc hnew] at hrun
      · rw [hend, ← hlast] at hup
        refine ⟨_, s', servePoll_of_result hrun (by decide), hup, by omega, .inl rfl,
          fun _ => ⟨rfl, ?_⟩⟩
        rw [hlast, max_eq_right hnew.le]
      · rw [← hlast] at hup
        refine ⟨_, s', servePoll_of_result hrun (by decide), hup, hlast.ge, .inr rfl,
          fun hall => ?_⟩
        exact absurd (earlyCalls_of_rpc hall) hearly
      · -- the range holds no proven batch, so its end is as good as its start
        have hnone : provens (chain.logsIn (s.lastSyncedBlock + 1) poll.toBlock) = [] := by
          by_contra hsome
          exact hlate (hsafe hrpc hearly hsome)
        have hup' := hback s' hnone hup
        rw [← hlast] at hup'
        refine ⟨_, s', servePoll_of_result hrun (by decide), hup', hlast.ge, .inr rfl,
          fun hall => ?_⟩
        exact absurd (lateCalls_of_rpc hall) hlate
    · refine ⟨_, s, servePoll_of_result (pollSync_idle hrpc hold) (by decide), h, le_rfl, .inl rfl,
        fun _ => ?_⟩
      exact ⟨rfl, (max_eq_left hold).symm⟩

/-- What every safe run keeps, a sequence of safe runs keeps. -/
theorem runPolls_rule (J : StateSyncState → Prop)
    (hserve : ∀ poll s, J s → PollSafe chain chunkBlocks poll s →
      ∃ result s', servePoll perm chain chunkBlocks poll genesisBlock (some s) =
        (result, some s') ∧ J s') {polls : List Poll} (h : J s)
    (hsafe : Safe perm chain chunkBlocks genesisBlock (some s) polls) :
    ∃ s', runPolls perm chain chunkBlocks genesisBlock (some s) polls = some s' ∧ J s' := by
  induction polls generalizing s with
  | nil => exact ⟨s, rfl, h⟩
  | cons poll polls ih =>
    obtain ⟨result, s', hstep, hs'⟩ := hserve poll s h (hsafe.1 s rfl)
    have hrest := hsafe.2
    rw [hstep] at hrest
    obtain ⟨s'', hrun, hs''⟩ := ih hs' hrest
    refine ⟨s'', ?_, hs''⟩
    rw [← hrun]
    unfold runPolls
    rw [List.foldl_cons, hstep]

variable (poll genesisBlock) in
theorem servePoll_upTo (hdeployed : Deployed chain.env chain.deployed) (hread : Readable chain)
    (htx : TxFirst chain) (hchunk : 0 < chunkBlocks)
    (h : UpTo perm chain (s.lastSyncedBlock + 1) s) (hsafe : PollSafe chain chunkBlocks poll s) :
    ∃ result s', servePoll perm chain chunkBlocks poll genesisBlock (some s) =
        (result, some s') ∧ UpTo perm chain (s'.lastSyncedBlock + 1) s' ∧
      s.lastSyncedBlock ≤ s'.lastSyncedBlock ∧ (result = .ok () ∨ result = .error .rpc) ∧
      ((∀ c, poll.rpc c = true) →
        result = .ok () ∧ s'.lastSyncedBlock = max s.lastSyncedBlock poll.toBlock) := by
  refine servePoll_rule (syncRange_upTo poll hdeployed hread htx hchunk false genesisBlock
    s.lastSyncedBlock (s.lastSyncedBlock + 1) poll.toBlock h) (fun s' hnone hup => ?_) h hsafe
  unfold UpTo at hup ⊢
  rw [chain.provens_before, hnone, List.append_nil] at hup
  exact UpTo.fewerLogs hup

/-- Before the first block of the history. -/
theorem before_genesis (hgenesis : ∀ n < genesisBlock, chain.blocks n = []) {n : ℕ}
    (hn : n ≤ genesisBlock) : chain.before n = (chain.deployed, []) := by
  have hnone : (List.range n).flatMap chain.blocks = [] := by
    rw [List.flatMap_eq_nil_iff]
    intro m hm
    exact hgenesis m (lt_of_lt_of_le (List.mem_range.mp hm) hn)
  rw [Chain.before, hnone, run_nil]

theorem new_batches {depth : ℕ} (h : StateSyncState.new perm depth = .ok s) :
    s.pendingBatches = (fun _ _ => none) ∧ s.confirmedBatches = fun _ _ => false := by
  obtain ⟨t, -, h⟩ := bind_eq_ok.mp h
  obtain ⟨root, -, h⟩ := bind_eq_ok.mp h
  cases h
  exact ⟨rfl, rfl⟩

theorem upTo_new {n : ℕ} (hbefore : (chain.before n).2 = [])
    (h : StateSyncState.new perm chain.deployed.treeDepth = .ok s) : UpTo perm chain n s := by
  obtain ⟨-, hrep⟩ := new_represented h
  have hnone := new_batches h
  unfold UpTo
  rw [hbefore]
  refine ⟨⟨[], hrep, .nil⟩, ?_, ?_, ?_, ?_, ?_⟩
  · intro kind pi hpi
    cases hpi
  · intro kind pi preimage hpi
    rw [hnone.1] at hpi
    cases hpi
  · intro kind pi hpi
    rw [hnone.2] at hpi
    cases hpi
  · intro kind pi hpi
    rw [hnone.1] at hpi
    cases hpi
  · intro p hp
    cases hp

theorem syncFromGenesis_rule {I : ℕ → StateSyncState → Prop}
    (hgenesis : ∀ n < genesisBlock, chain.blocks n = [])
    (hrange : ∀ new, StateSyncState.new perm chain.deployed.treeDepth = .ok new →
      RangeSynced I perm chain chunkBlocks poll true genesisBlock poll.toBlock genesisBlock
        poll.toBlock new)
    (hsame : ∀ m n s', chain.before m = chain.before n → I m s' → I n s')
    (h : syncFromGenesis perm chain chunkBlocks poll genesisBlock = .ok s) :
    s.lastSyncedBlock = poll.toBlock ∧ I (s.lastSyncedBlock + 1) s := by
  unfold syncFromGenesis at h
  split at h
  · cases h
  split at h
  · cases h
  obtain ⟨new, hnew, h⟩ := bind_eq_ok.mp h
  obtain ⟨s', ⟨hrun, hup, hlast, -⟩ | ⟨hrun, -⟩ | ⟨hrun, -⟩⟩ := (hrange new hnew).cases
  all_goals
    rw [hrun] at h
    cases h
  refine ⟨hlast, ?_⟩
  rw [hlast]
  rcases Nat.lt_or_ge poll.toBlock genesisBlock with hlt | hge
  · -- the range is empty and so is the history
    rw [max_eq_left (by omega)] at hup
    refine hsame genesisBlock _ _ ?_ hup
    rw [before_genesis hgenesis le_rfl, before_genesis hgenesis (by omega)]
  · rw [max_eq_right (by omega)] at hup
    exact hup

theorem syncFromGenesis_of_range (hdepth : chain.deployed.configTreeDepth =
      Circuit.MAIN_POOL_CONFIG_DEPTH) (hrpc : ∀ c, poll.rpc c = true) {new : StateSyncState}
    (hnew : StateSyncState.new perm chain.deployed.treeDepth = .ok new)
    (hrun : syncRange perm chain chunkBlocks poll true genesisBlock poll.toBlock genesisBlock
      poll.toBlock new = (.ok (), s)) :
    syncFromGenesis perm chain chunkBlocks poll genesisBlock = .ok s := by
  unfold syncFromGenesis
  rw [if_neg (by simp [hrpc]), if_neg (not_not_intro hdepth)]
  refine bind_eq_ok.mpr ⟨new, hnew, ?_⟩
  rw [hrun]

theorem syncFromGenesis_isOk {I : ℕ → StateSyncState → Prop}
    (hdeployed : Deployed chain.env chain.deployed)
    (hdepth : chain.deployed.configTreeDepth = Circuit.MAIN_POOL_CONFIG_DEPTH)
    (hrpc : ∀ c, poll.rpc c = true)
    (hrange : ∀ new, StateSyncState.new perm chain.deployed.treeDepth = .ok new →
      RangeSynced I perm chain chunkBlocks poll true genesisBlock poll.toBlock genesisBlock
        poll.toBlock new) :
    ∃ s, syncFromGenesis perm chain chunkBlocks poll genesisBlock = .ok s := by
  obtain ⟨new, hnew⟩ := new_isOk perm (treeDepth_pos hdeployed)
  obtain ⟨s, ⟨hrun, -⟩ | ⟨-, -, -, hearly⟩ | ⟨-, -, -, -, hlate⟩⟩ := (hrange new hnew).cases
  · exact ⟨s, syncFromGenesis_of_range hdepth hrpc hnew hrun⟩
  · exact absurd (earlyCalls_of_rpc hrpc) hearly
  · exact absurd (lateCalls_of_rpc hrpc) hlate

theorem syncFromGenesis_upTo (hdeployed : Deployed chain.env chain.deployed)
    (hread : Readable chain) (htx : TxFirst chain) (hchunk : 0 < chunkBlocks)
    (hgenesis : ∀ n < genesisBlock, chain.blocks n = [])
    (h : syncFromGenesis perm chain chunkBlocks poll genesisBlock = .ok s) :
    s.lastSyncedBlock = poll.toBlock ∧ UpTo perm chain (s.lastSyncedBlock + 1) s := by
  refine syncFromGenesis_rule hgenesis (fun new hnew => ?_) (fun m n s' hmn hup => ?_) h
  · exact syncRange_upTo poll hdeployed hread htx hchunk true _ _ _ _
      (upTo_new (congrArg Prod.snd (before_genesis hgenesis le_rfl)) hnew)
  · unfold UpTo at hup ⊢
    rw [← hmn]
    exact hup

end Runs

/-- In every sequence of safe runs, successful or not, on a history that can be read, the leaves
of the tree are those the contract has appended up to `last_synced_block`, and a run all of
whose calls succeed succeeds and brings the tree to its latest block. -/
theorem poll_sync_mirrors (perm : State → State) (chain : Chain) (chunkBlocks genesisBlock : ℕ)
    (hdeployed : Deployed chain.env chain.deployed) (hchunk : 0 < chunkBlocks)
    (hgenesis : ∀ n < genesisBlock, chain.blocks n = []) (hread : Readable chain)
    (htx : TxFirst chain) (hcoll : NoCollision chain) (first : Poll) (s₀ : StateSyncState)
    (h₀ : syncFromGenesis perm chain chunkBlocks first genesisBlock = .ok s₀) (polls : List Poll)
    (hsafe : Safe perm chain chunkBlocks genesisBlock (some s₀) polls) :
    ∃ s, runPolls perm chain chunkBlocks genesisBlock (some s₀) polls = some s ∧
      s.stateTree.leaves.map packLE = chain.leaves s.lastSyncedBlock ∧
      ∀ poll : Poll, (∀ c, poll.rpc c = true) →
        ∃ s', servePoll perm chain chunkBlocks poll genesisBlock (some s) = (.ok (), some s') ∧
          s'.lastSyncedBlock = max s.lastSyncedBlock poll.toBlock ∧
          s'.stateTree.leaves.map packLE = chain.leaves s'.lastSyncedBlock := by
  obtain ⟨-, hup⟩ := syncFromGenesis_upTo hdeployed hread htx hchunk hgenesis h₀
  obtain ⟨s, hrun, hup⟩ := runPolls_rule (fun s => UpTo perm chain (s.lastSyncedBlock + 1) s)
    (fun poll s hs hsafe => by
      obtain ⟨result, s', hserve, hs', -⟩ := servePoll_upTo genesisBlock poll hdeployed hread htx
        hchunk hs hsafe
      exact ⟨result, s', hserve, hs'⟩) hup hsafe
  refine ⟨s, hrun, hup.leaves hdeployed hcoll, fun poll hall => ?_⟩
  obtain ⟨result, s', hserve, hup', -, -, hok⟩ := servePoll_upTo genesisBlock poll
    hdeployed hread htx hchunk hup fun _ _ _ => lateCalls_of_rpc hall
  obtain ⟨rfl, hlast⟩ := hok hall
  exact ⟨s', hserve, hlast, hup'.leaves hdeployed hcoll⟩

/-! ## A history with one batch -/

section Sample

/-- A batch of zeros: no slot is real. -/
def zeroData : Bytes := ⟨TX_PREIMAGE_LEN, fun _ => 0⟩

def sampleChain : Chain where
  env := sampleEnv
  deployed := (constructor sampleEnv 1 1 1 1 1 Circuit.MAIN_POOL_CONFIG_DEPTH 0).toOption.get rfl
  blocks := fun n => if n = 1 then submitAndProve zeroData else []
  calldata := fun c => (submits c).map fun batch => batch.2.content

def sampleSubmit : Call := ⟨⟨1, 0⟩, .submitTransactionBatch zeroData⟩

def sampleProve : Call := ⟨⟨2, 0⟩, .proveTransactionBatch zeroData sampleProof⟩

/-- The logs of block 1. -/
def sampleLogs : List Log :=
  [.submitted .transaction 1 sampleSubmit, .proven .transaction 1 0 0]

theorem sampleChain_deployed : Deployed sampleChain.env sampleChain.deployed :=
  ⟨1, 1, 1, 1, 1, Circuit.MAIN_POOL_CONFIG_DEPTH, 0, rfl⟩

theorem sampleChain_logs : sampleChain.logs 1 = sampleLogs := by
  have hbefore : sampleChain.before 1 = (sampleChain.deployed, []) :=
    before_genesis (fun m hm => if_neg (by omega)) le_rfl
  have hcalls : sampleChain.blocks 1 = [sampleSubmit] ++ [sampleProve] := rfl
  have hruns : ((do
      let s ← Contract.step sampleChain.env sampleSubmit sampleChain.deployed
      let s' ← Contract.step sampleChain.env sampleProve s
      return (s.imt.leafCount, s'.imt.currentRoot)).toOption) = some (0, 0) := by decide +kernel
  cases hsubmit : Contract.step sampleChain.env sampleSubmit sampleChain.deployed with
  | error e =>
    rw [hsubmit] at hruns
    cases hruns
  | ok s =>
    rw [hsubmit] at hruns
    cases hprove : Contract.step sampleChain.env sampleProve s with
    | error e =>
      simp only [bind, Except.bind, hprove] at hruns
      cases hruns
    | ok s' =>
      simp only [bind, Except.bind, hprove, pure, Except.pure, Except.toOption, Option.some.injEq,
        Prod.mk.injEq] at hruns
      obtain ⟨hcount, hroot⟩ := hruns
      rw [Chain.logs, hbefore, hcalls, run_concat, ← List.nil_append [sampleSubmit], run_concat, run_nil,
        attempt_ok (emitStep_ok hsubmit), attempt_ok (emitStep_ok hprove)]
      unfold emit sampleSubmit sampleProve
      dsimp only
      rw [hcount, hroot]
      rfl

theorem sampleChain_before (n : ℕ) :
    (sampleChain.before n).2 = if n < 2 then [] else sampleLogs := by
  have hblock : ∀ m, m ≠ 1 → sampleChain.logs m = [] := by
    intro m hm
    have hnone : sampleChain.blocks m = [] := if_neg hm
    rw [Chain.logs, hnone, run_nil]
  induction n with
  | zero => rfl
  | succ n ih =>
    rw [Chain.before_succ, ih]
    rcases Nat.lt_trichotomy n 1 with hn | hn | hn
    · rw [if_pos (by omega), if_pos (by omega), hblock n (by omega)]
      rfl
    · subst hn
      rw [if_pos (by omega), if_neg (by omega), List.nil_append, sampleChain_logs]
    · rw [if_neg (by omega), if_neg (by omega), hblock n (by omega), List.append_nil]

theorem sampleChain_submissions {n : ℕ} {kind : BatchKind} {pi : Bytes32} {c : Call}
    (h : (pi, c) ∈ submissions kind (sampleChain.before n).2) :
    kind = .transaction ∧ pi = 1 ∧ c = sampleSubmit := by
  rw [sampleChain_before] at h
  split at h
  · cases h
  · cases kind with
    | transaction =>
      cases List.mem_singleton.mp h
      exact ⟨rfl, rfl, rfl⟩
    | bridgeTx => cases h

/-- A preimage of zeros holds the zero digest everywhere. -/
theorem readHash_zeroData {off : ℕ} (hoff : off + 32 ≤ TX_PREIMAGE_LEN) :
    readHash zeroData.content off = some 0 := by
  have hlength : zeroData.content.length = TX_PREIMAGE_LEN := length_content zeroData
  refine readHash_fieldsAt (fun i => ?_) (by rw [hlength]; exact hoff)
  have hi := i.isLt
  have hzero : ∀ k < 8, (byteOf zeroData.content (off + 8 * i.val + k)).toNat = 0 := by
    intro k hk
    have hlt : off + 8 * i.val + k < zeroData.length := lt_of_lt_of_le (by omega) hoff
    rw [byteOf_content hlt]
    rfl
  constructor
  · rw [bigEndian_congr fun k hk => hzero k (by omega), Pi.zero_apply, ZMod.val_zero]
    rfl
  · have hhigh : ∀ k < 4, (byteOf zeroData.content (off + 8 * i.val + 4 + k)).toNat = 0 := by
      intro k hk
      rw [Nat.add_assoc]
      exact hzero (4 + k) (by omega)
    rw [bigEndian_congr hhigh, Pi.zero_apply, ZMod.val_zero]
    rfl

theorem parsed_zeroData : (parsed .transaction zeroData.content).isSome := by
  have hlength : zeroData.content.length = TX_PREIMAGE_LEN := length_content zeroData
  have hcommitments : ∀ place ∈ (List.range PRIV_TX_BATCH_SIZE).flatMap txCommitmentPlaces,
      place.1 + 32 ≤ TX_PREIMAGE_LEN := by decide +kernel
  have hnullifiers : ∀ off ∈ (List.range PRIV_TX_BATCH_SIZE).flatMap txNullifierOffs,
      off + 32 ≤ TX_PREIMAGE_LEN := by decide +kernel
  unfold parsed
  rw [if_neg (by rw [hlength]; exact lt_irrefl _), parsePreimage, parseTxPreimage,
    readCommitments_eq, mapM_readHash]
  · rfl
  · intro off hoff
    obtain ⟨s, hs, hoff⟩ := List.mem_flatMap.mp hoff
    have hin := hnullifiers off (List.mem_flatMap.mpr ⟨s, List.mem_of_mem_filter hs, hoff⟩)
    rw [readHash_zeroData hin]
    rfl
  · intro place hplace
    rw [readHash_zeroData (hcommitments place hplace)]
    rfl

theorem sampleChain_readable : Readable sampleChain where
  submitted := by
    intro n kind pi c h k data hsubmits
    obtain ⟨rfl, rfl, rfl⟩ := sampleChain_submissions h
    cases hsubmits
    refine ⟨rfl, parsed_zeroData, ?_⟩
    rw [readHash_zeroData (by decide)]
    rfl
  proven := by
    intro n p hp
    rw [sampleChain_before] at hp
    split at hp
    · cases hp
    · cases List.mem_singleton.mp hp
      decide +kernel
  updated := by
    intro n root h
    rw [sampleChain_before] at h
    split at h
    · cases h
    · simp [sampleLogs] at h

theorem sampleChain_txFirst : TxFirst sampleChain := by
  intro n
  rw [sampleChain_before]
  split
  · exact List.Pairwise.nil
  · exact List.pairwise_singleton _ _

theorem sampleChain_calls {c : Call} (h : sampleChain.Has c) : c = sampleSubmit ∨ c = sampleProve := by
  obtain ⟨n, hn⟩ := h
  unfold sampleChain at hn
  dsimp only at hn
  split at hn
  · simpa [submitAndProve, sampleSubmit, sampleProve] using hn
  · cases hn

theorem sampleChain_noCollision : NoCollision sampleChain := by
  intro c c' k k' data data' hc hc' hsubmits hproves _
  rcases sampleChain_calls hc with rfl | rfl
  · rcases sampleChain_calls hc' with rfl | rfl
    · cases hproves
    · cases hsubmits
      cases hproves
      rfl
  · cases hsubmits

/-- The runs of the samples: the calls with `rpc` succeed. -/
def samplePoll (toBlock : ℕ) (rpc : RpcCall → Bool) : Poll := ⟨toBlock, rpc, id, fun _ => .refl _⟩

theorem sampleChain_genesis (perm : State → State) :
    ∃ s₀, syncFromGenesis perm sampleChain 1 (samplePoll 0 fun _ => true) 0 = .ok s₀ := by
  have hrange : ∀ new, StateSyncState.new perm sampleChain.deployed.treeDepth = .ok new →
      RangeSynced (UpTo perm sampleChain) perm sampleChain 1 (samplePoll 0 fun _ => true) true 0 0 0
        0 new := by
    intro new hnew
    exact syncRange_upTo (samplePoll 0 fun _ => true) sampleChain_deployed sampleChain_readable
      sampleChain_txFirst Nat.one_pos true 0 0 0 0 (upTo_new rfl hnew)
  exact syncFromGenesis_isOk sampleChain_deployed rfl (fun _ => rfl) hrange

/-- A run without a node, then one with all calls. -/
theorem poll_sync_mirrors_sample : ∃ s₀,
    syncFromGenesis id sampleChain 1 (samplePoll 0 fun _ => true) 0 = .ok s₀ ∧
    ∃ s, runPolls id sampleChain 1 0 (some s₀) [samplePoll 1 fun _ => false] = some s ∧
      s.stateTree.leaves.map packLE = sampleChain.leaves s.lastSyncedBlock ∧
      ∃ s', servePoll id sampleChain 1 (samplePoll 1 fun _ => true) 0 (some s) =
          (.ok (), some s') ∧ s'.lastSyncedBlock = max s.lastSyncedBlock 1 ∧
        s'.stateTree.leaves.map packLE = sampleChain.leaves s'.lastSyncedBlock := by
  obtain ⟨s₀, h₀⟩ := sampleChain_genesis id
  refine ⟨s₀, h₀, ?_⟩
  have hsafe : Safe id sampleChain 1 0 (some s₀) [samplePoll 1 fun _ => false] :=
    ⟨fun s _ hrpc => Bool.noConfusion hrpc, trivial⟩
  obtain ⟨s, hrun, hleaves, hnext⟩ := poll_sync_mirrors id sampleChain 1 0 sampleChain_deployed
    Nat.one_pos (fun n hn => absurd hn (Nat.not_lt_zero n)) sampleChain_readable
    sampleChain_txFirst sampleChain_noCollision _ s₀ h₀ _ hsafe
  exact ⟨s, hrun, hleaves, hnext (samplePoll 1 fun _ => true) fun _ => rfl⟩

end Sample

/-! ## The retry after a late failure -/

section Retry

variable {perm : State → State} {chain : Chain} {chunkBlocks : ℕ} {poll : Poll}
  {s : StateSyncState}

theorem fetchLogs_of_rpc (hchunk : 0 < chunkBlocks) (hrpc : ∀ c, poll.rpc c = true)
    (event : EventKind) (fromBlock toBlock : ℕ) :
    fetchLogs chain chunkBlocks poll event fromBlock toBlock =
      pure (chain.getLogs event fromBlock toBlock) := by
  rcases fetchLogs_cases chunkBlocks poll chain hchunk event fromBlock toBlock with
    ⟨-, heq⟩ | ⟨hnot, -⟩
  · exact heq
  · exact absurd (fun i _ => hrpc _) hnot

/-- Submissions that are indexed already are passed over. -/
theorem processNewSubmissions_known (hdeployed : Deployed chain.env chain.deployed)
    (hchunk : 0 < chunkBlocks) (hrpc : ∀ c, poll.rpc c = true) {fromBlock toBlock : ℕ}
    (hknown : ∀ kind pi, pi ∈ (submissions kind (chain.logsIn fromBlock toBlock)).map Prod.fst →
      Known s kind pi) :
    processNewSubmissions chain chunkBlocks poll fromBlock toBlock s = (.ok (), s) := by
  have hskip : ∀ kind, Program.forEach (applySubmission chain poll kind)
      (poll.order (submitMap (submissions kind
        (chain.getLogs (.submitted kind) fromBlock toBlock)))) s = (.ok (), s) := by
    intro kind
    refine Program.forEach_skip fun e he => ?_
    have hmem := (order_submitMap hdeployed kind fromBlock toBlock e).mp he
    have hisKnown : ((s.pendingBatches kind e.1).isSome || s.confirmedBatches kind e.1) = true := by
      rw [Bool.or_eq_true]
      exact hknown kind e.1 (List.mem_map_of_mem hmem)
    unfold applySubmission
    rw [Program.read_bind, hisKnown]
    rfl
  unfold processNewSubmissions
  rw [fetchLogs_of_rpc hchunk hrpc, Program.pure_bind, fetchLogs_of_rpc hchunk hrpc,
    Program.pure_bind, Program.bind_ok (hskip .transaction)]
  exact hskip .bridgeTx

theorem collectProvenBatches_of_rpc (hdeployed : Deployed chain.env chain.deployed)
    (hchunk : 0 < chunkBlocks) (hrpc : ∀ c, poll.rpc c = true) (fromBlock toBlock : ℕ) :
    ∃ entries, collectProvenBatches chain chunkBlocks poll fromBlock toBlock = pure entries ∧
      sortByLeafIndex entries =
        (provens (chain.logsIn fromBlock toBlock)).filterMap decodeProvenLog := by
  refine ⟨_, ?_, sortByLeafIndex_collected hdeployed fromBlock toBlock⟩
  unfold collectProvenBatches
  rw [fetchLogs_of_rpc hchunk hrpc, Program.pure_bind, fetchLogs_of_rpc hchunk hrpc,
    Program.pure_bind]

/-- A submission outside the blocks that are searched. -/
theorem searchPages_missing (hrpc : ∀ c, poll.rpc c = true) {kind : BatchKind} {pi : Bytes32}
    {toBlock : ℕ} (hnone : ∀ a b, b ≤ toBlock →
      pi ∉ (submissions kind (chain.logsIn a b)).map Prod.fst) (fuel chunkStart : ℕ) :
    searchPages chain chunkBlocks poll kind pi toBlock fuel chunkStart =
      Program.fail .submissionNotFound := by
  induction fuel generalizing chunkStart with
  | zero => rfl
  | succ fuel ih =>
    rw [searchPages]
    split
    · have hfind : (submissions kind (chain.logsIn chunkStart
          (min (chunkStart + chunkBlocks - 1) toBlock))).find? (fun e => e.1 = pi) = none := by
        refine List.find?_eq_none.mpr fun e he heq => ?_
        rw [decide_eq_true_iff] at heq
        have hmem := List.mem_map_of_mem (f := Prod.fst) he
        rw [heq] at hmem
        exact hnone _ _ (Nat.min_le_right _ _) hmem
      dsimp only
      rw [call_true poll (hrpc _), Program.pure_bind, hfind]
      exact ih _
    · rfl

/-- A proven batch that is not pending and was submitted later than the blocks searched. -/
theorem confirmEntry_missing (hrpc : ∀ c, poll.rpc c = true) {entry : ProvenBatchEntry}
    {genesisBlock searchTo : ℕ} (hpending : ∀ kind, s.pendingBatches kind entry.piCommitment = none)
    (hnone : ∀ a b, b ≤ searchTo →
      entry.piCommitment ∉ (submissions entry.kind (chain.logsIn a b)).map Prod.fst) :
    confirmEntry perm chain chunkBlocks poll genesisBlock searchTo entry s =
      (.error .submissionNotFound, s) := by
  unfold confirmEntry
  rw [Program.read_bind, hpending, hpending]
  have hsearch : findSubmissionTxHash chain chunkBlocks poll entry.kind entry.piCommitment
      genesisBlock searchTo = Program.fail .submissionNotFound :=
    searchPages_missing hrpc hnone _ _
  rw [hsearch]
  rfl

end Retry

section Sample

/-- Only the last fetch of a run fails. -/
def lateFailure : RpcCall → Bool
  | .getLogs .depositWithdrawn _ _ => false
  | _ => true

theorem sampleChain_range {m : ℕ} (hm : 1 ≤ m) : sampleChain.logsIn 1 m = sampleLogs := by
  have hall := sampleChain.before_logsIn 1 m
  rw [sampleChain_before, sampleChain_before, if_pos (by omega), if_neg (by omega)] at hall
  exact hall

theorem sampleChain_search {a b : ℕ} (hb : b ≤ 0) : sampleChain.logsIn a b = [] := by
  have hall := sampleChain.before_logsIn a b
  rcases Nat.lt_or_ge b a with hlt | hge
  · exact sampleChain.logsIn_of_lt hlt
  · rw [sampleChain_before, sampleChain_before, if_pos (by omega), if_pos (by omega)] at hall
    exact hall

/-- The state after the late failure: the batch is confirmed and no longer pending. -/
theorem sample_confirmed {perm : State → State} {s : StateSyncState}
    (h : UpTo perm sampleChain 2 s) :
    s.confirmedBatches .transaction 1 = true ∧ ∀ kind, s.pendingBatches kind 1 = none := by
  unfold UpTo at h
  rw [sampleChain_before, if_neg (by omega)] at h
  have hprovens : provens sampleLogs = [⟨.transaction, 1, 0, 0⟩] := rfl
  rw [hprovens] at h
  have hconfirmed : s.confirmedBatches .transaction 1 = true := by
    obtain ⟨kind, hkind⟩ := h.done _ List.mem_cons_self
    cases kind with
    | transaction => exact hkind
    | bridgeTx =>
      obtain ⟨p, hp, -, hbridge⟩ := h.confirmed .bridgeTx 1 hkind
      rw [List.mem_singleton.mp hp] at hbridge
      cases hbridge rfl
  refine ⟨hconfirmed, fun kind => Option.not_isSome_iff_eq_none.mp fun hpending => ?_⟩
  cases kind with
  | transaction =>
    rw [h.apart .transaction 1 hpending] at hconfirmed
    cases hconfirmed
  | bridgeTx =>
    obtain ⟨preimage, hpreimage⟩ := Option.isSome_iff_exists.mp hpending
    obtain ⟨c, k, data, hc, hsubmits, -, hkind, -⟩ := (h.origin _ _ _ hpreimage).submitted
    rcases sampleChain_calls hc with rfl | rfl
    · cases hsubmits
      cases hkind
    · cases hsubmits

/-- The batch of block 1 is confirmed before the last fetch fails. Every later run searches its
preimage up to block 0, does not find it, and fails as the first one. -/
theorem retry_never_succeeds : Readable sampleChain ∧ TxFirst sampleChain ∧
    NoCollision sampleChain ∧ ∃ s₀ s₁,
      syncFromGenesis id sampleChain 1 (samplePoll 0 fun _ => true) 0 = .ok s₀ ∧
      servePoll id sampleChain 1 (samplePoll 1 lateFailure) 0 (some s₀) = (.error .rpc, some s₁) ∧
      s₁.lastSyncedBlock = 0 ∧
      ∀ poll : Poll, (∀ c, poll.rpc c = true) → 1 ≤ poll.toBlock →
        servePoll id sampleChain 1 poll 0 (some s₁) = (.error .submissionNotFound, some s₁) := by
  refine ⟨sampleChain_readable, sampleChain_txFirst, sampleChain_noCollision, ?_⟩
  obtain ⟨s₀, h₀⟩ := sampleChain_genesis id
  obtain ⟨hlast₀, hup₀⟩ := syncFromGenesis_upTo sampleChain_deployed sampleChain_readable
    sampleChain_txFirst Nat.one_pos (fun n hn => absurd hn (Nat.not_lt_zero n)) h₀
  have hzero : s₀.lastSyncedBlock = 0 := hlast₀
  rw [hzero] at hup₀
  -- the first run fails late
  obtain ⟨s₁, ⟨-, -, -, -, hlate⟩ | ⟨-, -, -, hearly⟩ | ⟨hrun, hup, hlast, -, -⟩⟩ := (syncRange_upTo
    (samplePoll 1 lateFailure) sampleChain_deployed sampleChain_readable sampleChain_txFirst
    Nat.one_pos false 0 0 1 1 hup₀).cases
  · exact absurd (hlate.fetched .depositWithdrawn (by simp) 0 (by omega)) (by decide)
  · exact absurd ⟨fun _ _ _ => rfl, fun _ _ _ _ => rfl, fun _ _ _ => rfl⟩ hearly
  have hpoll : pollSync id sampleChain 1 (samplePoll 1 lateFailure) 0 s₀ = (.error .rpc, s₁) := by
    rw [pollSync_eq rfl (by rw [hzero]; exact Nat.one_pos), hzero]
    exact hrun
  rw [hzero] at hlast
  refine ⟨s₀, s₁, h₀, servePoll_of_result hpoll (by decide), hlast, fun poll hrpc hnew => ?_⟩
  -- and so do the others
  obtain ⟨hconfirmed, hpending⟩ := sample_confirmed hup
  have hknown : ∀ kind pi, pi ∈ (submissions kind (sampleChain.logsIn 1 poll.toBlock)).map Prod.fst →
      Known s₁ kind pi := by
    intro kind pi hpi
    rw [sampleChain_range hnew] at hpi
    cases kind with
    | transaction =>
      rw [List.mem_singleton.mp hpi]
      exact .inr hconfirmed
    | bridgeTx => cases hpi
  refine servePoll_of_result ?_ (by decide)
  obtain ⟨entries, hcollect, hsorted⟩ := collectProvenBatches_of_rpc sampleChain_deployed
    Nat.one_pos hrpc 1 poll.toBlock
  obtain ⟨root, hroot⟩ : ∃ root, u256LeToHash 0 = some root :=
    Option.isSome_iff_exists.mp (sampleChain_readable.proven 2 ⟨.transaction, 1, 0, 0⟩
      (by rw [sampleChain_before]; exact List.mem_cons_self))
  have hentries : (provens (sampleChain.logsIn 1 poll.toBlock)).filterMap decodeProvenLog =
      [⟨1, root, 0, .transaction⟩] := by
    rw [sampleChain_range hnew]
    have hdecode : decodeProvenLog ⟨.transaction, 1, 0, 0⟩ = some ⟨1, root, 0, .transaction⟩ := by
      rw [decodeProvenLog, hroot]
      rfl
    have hprovens : provens sampleLogs = [⟨.transaction, 1, 0, 0⟩] := rfl
    rw [hprovens, List.filterMap_cons_some hdecode, List.filterMap_nil]
  have hmissing : confirmEntry id sampleChain 1 poll 0 0 ⟨1, root, 0, .transaction⟩ s₁ =
      (.error .submissionNotFound, s₁) := by
    refine confirmEntry_missing hrpc hpending fun a b hb => ?_
    rw [sampleChain_search hb]
    exact List.not_mem_nil
  rw [pollSync_eq (hrpc _) (by rw [hlast]; exact hnew), hlast, syncRange,
    Program.bind_ok (processNewSubmissions_known sampleChain_deployed Nat.one_pos hrpc hknown),
    hcollect, Program.pure_bind, hsorted, hentries]
  refine Program.bind_error ?_
  rw [Program.forEach]
  exact Program.bind_error hmissing

end Sample

end Doxa.StateSync
