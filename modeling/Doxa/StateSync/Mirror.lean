import Doxa.StateSync.Fetch

/-!
# State-sync mirrors the chain

`MirrorInv` relates the state to a list of logs and a list of proven batches: the leaves of the
tree are the roots in the headers of these batches, and every submission in the logs that is
not settled by one of them is pending. Applying submissions keeps it in any order, and
confirming the next proven batch extends it by that batch and cannot fail: its preimage is
pending and the tree has room.
-/

namespace Doxa.StateSync

open Lib Trees Contract Function

/-! ## Histories -/

/-- State-sync can read what the history holds: the input of a transaction that submits a batch
gives back the batch, all digests it reads there are below the field order, and so are the
roots in the logs. -/
structure Readable (chain : Chain) : Prop where
  submitted : ∀ n kind pi c, (pi, c) ∈ submissions kind (chain.before n).2 → ∀ k data,
    submits c = some (k, data) → chain.calldata c = some data.content ∧
      (parsed kind data.content).isSome ∧ (readHash data.content 0).isSome
  proven : ∀ n, ∀ p ∈ provens (chain.before n).2, (u256LeToHash p.newTreeRoot).isSome
  updated : ∀ n root, .subpoolRootUpdated root ∈ (chain.before n).2 → (u256LeToHash root).isSome

/-- No batch is proven as a bridge batch and after that as a transaction batch. -/
def TxFirst (chain : Chain) : Prop :=
  ∀ n, (provens (chain.before n).2).Pairwise fun p q =>
    p.kind = .bridgeTx → q.kind = .transaction → p.piCommitment ≠ q.piCommitment

/-- Keccak-256 tells the batches of the history apart. -/
def NoCollision (chain : Chain) : Prop :=
  ∀ c c' k k' data data', chain.Has c → chain.Has c' → submits c = some (k, data) →
    proves c' = some (k', data') →
    piCommitment chain.env data = piCommitment chain.env data' → data.content = data'.content

/-- The preimage of `pi` is a batch of the history with a root in its header. -/
structure HasPreimage (chain : Chain) (kind : BatchKind) (pi : Bytes32)
    (preimage : List (BitVec 8)) : Prop where
  submitted : ∃ c k data, chain.Has c ∧ submits c = some (k, data) ∧
    piCommitment chain.env data = pi ∧ .ofContract k = kind ∧ data.content = preimage
  length : 32 ≤ preimage.length
  header : (readHash preimage 0).isSome

/-- The header of the batch `p` has this root. -/
def HeaderRoot (chain : Chain) (root : HashOut) (p : Proven) : Prop :=
  ∃ preimage, HasPreimage chain p.kind p.piCommitment preimage ∧ readHash preimage 0 = some root

/-! ## The invariant -/

/-- A batch of this kind may have been confirmed: `confirm_batch` is not told the kind, and
takes a pending transaction batch first. -/
def Settled (P : List Proven) (kind : BatchKind) (pi : Bytes32) : Prop :=
  ∃ p ∈ P, p.piCommitment = pi ∧ (kind = .bridgeTx → p.kind = .bridgeTx)

theorem Settled.append {P : List Proven} {kind : BatchKind} {pi : Bytes32} (h : Settled P kind pi)
    (Q : List Proven) : Settled (P ++ Q) kind pi := by
  obtain ⟨p, hp, hpi⟩ := h
  exact ⟨p, List.mem_append_left Q hp, hpi⟩

structure MirrorInv (perm : State → State) (chain : Chain) (L : List Log) (P : List Proven)
    (s : StateSyncState) : Prop where
  tree : ∃ ds, Represents (hashOutput perm) chain.deployed.treeDepth ds s.stateTree ∧
    List.Forall₂ (HeaderRoot chain) ds P
  pending : ∀ kind pi, pi ∈ (submissions kind L).map Prod.fst → ¬ Settled P kind pi →
    (s.pendingBatches kind pi).isSome
  origin : ∀ kind pi preimage, s.pendingBatches kind pi = some preimage →
    HasPreimage chain kind pi preimage
  confirmed : ∀ kind pi, s.confirmedBatches kind pi = true → Settled P kind pi
  apart : ∀ kind pi, (s.pendingBatches kind pi).isSome → s.confirmedBatches kind pi = false
  done : ∀ p ∈ P, ∃ kind, s.confirmedBatches kind p.piCommitment = true

section Invariant

variable {perm : State → State} {chain : Chain} {L : List Log} {P : List Proven}
  {s s' : StateSyncState}

theorem MirrorInv.congr (h : MirrorInv perm chain L P s) (htree : s'.stateTree = s.stateTree)
    (hpending : s'.pendingBatches = s.pendingBatches)
    (hconfirmed : s'.confirmedBatches = s.confirmedBatches) : MirrorInv perm chain L P s' := by
  constructor
  · rw [htree]
    exact h.tree
  · rw [hpending]
    exact h.pending
  · rw [hpending]
    exact h.origin
  · rw [hconfirmed]
    exact h.confirmed
  · rw [hpending, hconfirmed]
    exact h.apart
  · rw [hconfirmed]
    exact h.done

/-- Which submissions count as read. -/
theorem MirrorInv.withLogs (h : MirrorInv perm chain L P s) {L' : List Log}
    (hpending : ∀ kind pi, pi ∈ (submissions kind L').map Prod.fst → ¬ Settled P kind pi →
      (s.pendingBatches kind pi).isSome) : MirrorInv perm chain L' P s :=
  ⟨h.tree, hpending, h.origin, h.confirmed, h.apart, h.done⟩

theorem MirrorInv.apply {kind : BatchKind} {pi : Bytes32} {preimage : List (BitVec 8)}
    {b : ParsedBatch} (h : MirrorInv perm chain L P s) (hpreimage : HasPreimage chain kind pi preimage)
    (hnew : s.confirmedBatches kind pi = false) (happlies : Applies kind preimage pi b s s') :
    MirrorInv perm chain L P s' := by
  have hat : ∀ k q, s'.pendingBatches k q =
      if k = kind ∧ q = pi then some preimage else s.pendingBatches k q := by
    intro k q
    rw [happlies.pending, update_row]
  refine ⟨?_, ?_, ?_, ?_, ?_, ?_⟩
  · rw [happlies.stateTree]
    exact h.tree
  · intro k q hq hsettled
    rw [hat]
    split
    · rfl
    · exact h.pending k q hq hsettled
  · intro k q x hx
    rw [hat] at hx
    split at hx
    · rename_i hboth
      cases hx
      rw [hboth.1, hboth.2]
      exact hpreimage
    · exact h.origin k q x hx
  · rw [happlies.confirmed]
    exact h.confirmed
  · intro k q hq
    rw [happlies.confirmed]
    rw [hat] at hq
    split at hq
    · rename_i hboth
      rw [hboth.1, hboth.2]
      exact hnew
    · exact h.apart k q hq
  · rw [happlies.confirmed]
    exact h.done

/-- The batch that a confirmation of `p` moves is settled by `p`. -/
theorem settled_of_moved {p : Proven} {kind : BatchKind}
    (hpending : (s.pendingBatches p.kind p.piCommitment).isSome)
    (hfirst : kind = .bridgeTx → s.pendingBatches .transaction p.piCommitment = none) :
    Settled (P ++ [p]) kind p.piCommitment := by
  refine ⟨p, List.mem_append_right P List.mem_cons_self, rfl, fun hkind => ?_⟩
  cases hp : p.kind with
  | bridgeTx => rfl
  | transaction =>
    rw [hp, hfirst hkind] at hpending
    cases hpending

theorem MirrorInv.confirm {p : Proven} {preimage : List (BitVec 8)} {r : HashOut}
    (h : MirrorInv perm chain L P s)
    (hpending : s.pendingBatches p.kind p.piCommitment = some preimage)
    (hr : readHash preimage 0 = some r) (hconfirms : Confirms perm p.piCommitment r s s') :
    MirrorInv perm chain L (P ++ [p]) s' := by
  obtain ⟨ds, hrep, hheaders⟩ := h.tree
  obtain ⟨-, hrep', -⟩ := hconfirms.represents hrep
  have hsome : (s.pendingBatches p.kind p.piCommitment).isSome := by
    rw [hpending]
    rfl
  have hheader : HeaderRoot chain r p := ⟨preimage, h.origin _ _ _ hpending, hr⟩
  have htree : List.Forall₂ (HeaderRoot chain) (ds ++ [r]) (P ++ [p]) :=
    List.rel_append hheaders (.cons hheader .nil)
  cases hconfirms.batches with
  | unknown hnone _ _ =>
    rw [hnone] at hpending
    cases hpending
  | moved kind hknown hfirst hpend hconf =>
    have hsettled := settled_of_moved (P := P) hsome hfirst
    have hpend' : ∀ k q, s'.pendingBatches k q =
        if k = kind ∧ q = p.piCommitment then none else s.pendingBatches k q := by
      intro k q
      rw [hpend, update_row]
    have hconf' : ∀ k q, s'.confirmedBatches k q =
        if k = kind ∧ q = p.piCommitment then true else s.confirmedBatches k q := by
      intro k q
      rw [hconf, update_row]
    refine ⟨⟨_, hrep', htree⟩, ?_, ?_, ?_, ?_, ?_⟩
    · intro k q hq hnot
      rw [hpend']
      split
      · rename_i hboth
        rw [hboth.1, hboth.2] at hnot
        exact absurd hsettled hnot
      · exact h.pending k q hq fun hold => hnot (hold.append [p])
    · intro k q x hx
      rw [hpend'] at hx
      split at hx
      · cases hx
      · exact h.origin k q x hx
    · intro k q hq
      rw [hconf'] at hq
      split at hq
      · rename_i hboth
        rw [hboth.1, hboth.2]
        exact hsettled
      · exact (h.confirmed k q hq).append [p]
    · intro k q hq
      rw [hpend'] at hq
      rw [hconf']
      split at hq
      · cases hq
      · rename_i hother
        rw [if_neg hother]
        exact h.apart k q hq
    · intro p' hp'
      rcases List.mem_append.mp hp' with hp' | hp'
      · obtain ⟨k, hk⟩ := h.done p' hp'
        refine ⟨k, ?_⟩
        rw [hconf', hk, ite_self]
      · rw [List.mem_singleton.mp hp']
        exact ⟨kind, by rw [hconf', if_pos ⟨rfl, rfl⟩]⟩

end Invariant

/-! ## Submissions -/

/-- The batch is indexed. -/
def Known (s : StateSyncState) (kind : BatchKind) (pi : Bytes32) : Prop :=
  (s.pendingBatches kind pi).isSome ∨ s.confirmedBatches kind pi = true

/-- The calls before the first confirmation, made in state `s`, succeed. -/
structure EarlyCalls (chain : Chain) (chunkBlocks : ℕ) (poll : Poll) (s : StateSyncState)
    (fromBlock toBlock : ℕ) : Prop where
  submitted : ∀ kind, Fetched chunkBlocks poll (.submitted kind) fromBlock toBlock
  inputs : ∀ kind pi, pi ∈ (submissions kind (chain.logsIn fromBlock toBlock)).map Prod.fst →
    ¬ Known s kind pi → poll.rpc (.submissionInput kind pi) = true
  proven : ∀ kind, Fetched chunkBlocks poll (.proven kind) fromBlock toBlock

/-- The calls after the last confirmation succeed. -/
structure LateCalls (chunkBlocks : ℕ) (poll : Poll) (initial : Bool) (fromBlock toBlock : ℕ) :
    Prop where
  fetched : ∀ event ∈ [EventKind.subpoolOwnerAssigned, .subpoolRootUpdated, .depositAvailable,
    .depositValidated, .depositWithdrawn], Fetched chunkBlocks poll event fromBlock toBlock
  roots : initial = true → poll.rpc .subpoolRoots = true

/-- Some submissions, listed in `K`, have been applied since `s₀`. -/
structure Submitting (perm : State → State) (chain : Chain) (poll : Poll) (L : List Log)
    (P : List Proven) (s₀ : StateSyncState) (K : List (BatchKind × Bytes32))
    (s : StateSyncState) : Prop where
  inv : MirrorInv perm chain L P s
  last : s.lastSyncedBlock = s₀.lastSyncedBlock
  known : ∀ k ∈ K, Known s k.1 k.2
  unchanged : ∀ k, k ∉ K → s.pendingBatches k.1 k.2 = s₀.pendingBatches k.1 k.2
  confirmed : s.confirmedBatches = s₀.confirmedBatches
  asked : ∀ k ∈ K, Known s₀ k.1 k.2 ∨ poll.rpc (.submissionInput k.1 k.2) = true

section Submissions

variable {perm : State → State} {chain : Chain} {chunkBlocks : ℕ} {poll : Poll} {L : List Log}
  {P : List Proven} {s₀ s s' : StateSyncState} {K : List (BatchKind × Bytes32)}

theorem Submitting.known_iff (h : Submitting perm chain poll L P s₀ K s) {kind : BatchKind}
    {pi : Bytes32} (hnew : (kind, pi) ∉ K) : Known s kind pi ↔ Known s₀ kind pi := by
  have hpending := h.unchanged (kind, pi) hnew
  dsimp only at hpending
  unfold Known
  rw [hpending, h.confirmed]

/-- A batch that is indexed is passed over. -/
theorem Submitting.skip (h : Submitting perm chain poll L P s₀ K s) {kind : BatchKind}
    {pi : Bytes32} (hknown : Known s kind pi) :
    Submitting perm chain poll L P s₀ (K ++ [(kind, pi)]) s := by
  refine ⟨h.inv, h.last, ?_, ?_, h.confirmed, ?_⟩
  · intro k hk
    rcases List.mem_append.mp hk with hk | hk
    · exact h.known k hk
    · rw [List.mem_singleton.mp hk]
      exact hknown
  · intro k hk
    exact h.unchanged k fun hold => hk (List.mem_append_left _ hold)
  · intro k hk
    rcases List.mem_append.mp hk with hk | hk
    · exact h.asked k hk
    · rw [List.mem_singleton.mp hk]
      by_cases hold : (kind, pi) ∈ K
      · exact h.asked _ hold
      · exact .inl ((h.known_iff hold).mp hknown)

theorem Submitting.apply {kind : BatchKind} {pi : Bytes32} {preimage : List (BitVec 8)}
    {b : ParsedBatch} (h : Submitting perm chain poll L P s₀ K s) (hnew : ¬ Known s kind pi)
    (hrpc : poll.rpc (.submissionInput kind pi) = true)
    (hpreimage : HasPreimage chain kind pi preimage) (happlies : Applies kind preimage pi b s s') :
    Submitting perm chain poll L P s₀ (K ++ [(kind, pi)]) s' := by
  have hnot : s.confirmedBatches kind pi = false :=
    Bool.eq_false_iff.mpr fun hconf => hnew (.inr hconf)
  have hat : ∀ k q, s'.pendingBatches k q =
      if k = kind ∧ q = pi then some preimage else s.pendingBatches k q := by
    intro k q
    rw [happlies.pending, update_row]
  refine ⟨h.inv.apply hpreimage hnot happlies, happlies.lastSyncedBlock.trans h.last, ?_, ?_,
    happlies.confirmed.trans h.confirmed, ?_⟩
  · intro k hk
    unfold Known
    rw [hat, happlies.confirmed]
    split
    · exact .inl rfl
    · rename_i hother
      rcases List.mem_append.mp hk with hk | hk
      · exact h.known k hk
      · rw [List.mem_singleton.mp hk] at hother
        exact absurd ⟨rfl, rfl⟩ hother
  · intro k hk
    have hother : ¬ (k.1 = kind ∧ k.2 = pi) := by
      rintro ⟨rfl, rfl⟩
      exact hk (List.mem_append_right _ List.mem_cons_self)
    rw [hat, if_neg hother]
    exact h.unchanged k fun hold => hk (List.mem_append_left _ hold)
  · intro k hk
    rcases List.mem_append.mp hk with hk | hk
    · exact h.asked k hk
    · rw [List.mem_singleton.mp hk]
      exact .inr hrpc

/-- The preimages of the chain. -/
theorem Chain.hasPreimage (hdeployed : Deployed chain.env chain.deployed) (hread : Readable chain)
    {n : ℕ} {kind : BatchKind} {pi : Bytes32} {c : Call}
    (h : (pi, c) ∈ submissions kind (chain.before n).2) :
    ∃ preimage b, chain.calldata c = some preimage ∧ parsed kind preimage = some b ∧
      HasPreimage chain kind pi preimage := by
  obtain ⟨k, data, hhas, hsubmits, hpi, hkind⟩ := (chain.before_inv hdeployed n).origin kind pi c h
  obtain ⟨hcalldata, hparsed, hheader⟩ := hread.submitted n kind pi c h k data hsubmits
  obtain ⟨b, hb⟩ := Option.isSome_iff_exists.mp hparsed
  have hlength : preimageLen kind ≤ data.content.length := by
    unfold parsed at hb
    split at hb
    · cases hb
    · omega
  have hheaderLength : 32 ≤ preimageLen kind := by
    cases kind <;> decide
  exact ⟨data.content, b, hcalldata, hb,
    ⟨c, k, data, hhas, hsubmits, hpi, hkind, rfl⟩, hheaderLength.trans hlength, hheader⟩

theorem applySubmission_triple (hdeployed : Deployed chain.env chain.deployed)
    (hread : Readable chain) {n : ℕ} {kind : BatchKind} {entry : Bytes32 × Call}
    (hentry : entry ∈ submissions kind (chain.before n).2) :
    Program.Triple (Submitting perm chain poll L P s₀ K) (applySubmission chain poll kind entry)
      (fun _ => Submitting perm chain poll L P s₀ (K ++ [(kind, entry.1)]))
      (fun e s => e = .rpc ∧ MirrorInv perm chain L P s ∧
        s.lastSyncedBlock = s₀.lastSyncedBlock ∧ ¬ Known s₀ kind entry.1 ∧
          poll.rpc (.submissionInput kind entry.1) = false) := by
  obtain ⟨pi, c⟩ := entry
  obtain ⟨preimage, b, hcalldata, hparsed, hpreimage⟩ := chain.hasPreimage hdeployed hread hentry
  unfold applySubmission
  refine Program.triple_bind (Q := fun known s => Submitting perm chain poll L P s₀ K s ∧
    (known = true ↔ Known s kind pi)) (Program.triple_read fun s hs => ⟨hs, ?_⟩) fun known => ?_
  · rw [Bool.or_eq_true]
    rfl
  · cases known with
    | true => exact Program.triple_pure fun s hs => hs.1.skip (hs.2.mp rfl)
    | false =>
      have hnew : ∀ s, (false = true ↔ Known s kind pi) → ¬ Known s kind pi :=
        fun s hs hknown => Bool.noConfusion (hs.mpr hknown)
      refine triple_call poll (fun hrpc => ?_) fun hrpc s hs => ?_
      · rw [decodeCalldata, hcalldata]
        refine Program.triple_change (fun s s' hs happly => ?_) fun s e hs happly => ?_
        · obtain ⟨b', -, happlies⟩ := applies_of_applyPreimage happly
          exact hs.1.apply (hnew s hs.2) hrpc hpreimage happlies
        · obtain ⟨s', hs'⟩ := applyPreimage_isOk hparsed pi s
          rw [hs'] at happly
          cases happly
      · refine ⟨rfl, hs.1.inv, hs.1.last, fun hold => hnew s hs.2 ?_, hrpc⟩
        by_cases hK : (kind, pi) ∈ K
        · exact hs.1.known _ hK
        · exact (hs.1.known_iff hK).mpr hold

/-- The entries of one submit map, in any order. -/
theorem applySubmissions_triple (hdeployed : Deployed chain.env chain.deployed)
    (hread : Readable chain) {n : ℕ} {kind : BatchKind} {entries : List (Bytes32 × Call)}
    {early : Prop} (hentries : ∀ e ∈ entries, e ∈ submissions kind (chain.before n).2)
    (hearly : early → ∀ e ∈ entries, ¬ Known s₀ kind e.1 →
      poll.rpc (.submissionInput kind e.1) = true) :
    Program.Triple (Submitting perm chain poll L P s₀ K)
      (Program.forEach (applySubmission chain poll kind) entries)
      (fun _ => Submitting perm chain poll L P s₀ (K ++ entries.map fun e => (kind, e.1)))
      (fun e s => e = .rpc ∧ MirrorInv perm chain L P s ∧
        s.lastSyncedBlock = s₀.lastSyncedBlock ∧ ¬ early) := by
  have hloop := Program.triple_forEach (applySubmission chain poll kind) entries
    (E := fun e s => e = .rpc ∧ MirrorInv perm chain L P s ∧
      s.lastSyncedBlock = s₀.lastSyncedBlock ∧ ¬ early)
    (fun done => Submitting perm chain poll L P s₀ (K ++ done.map fun e => (kind, e.1))) ?_
  · rw [List.map_nil, List.append_nil] at hloop
    exact hloop
  · intro done x rest hsplit
    have hx : x ∈ entries := by
      rw [hsplit]
      exact List.mem_append_right done List.mem_cons_self
    rw [List.map_append, ← List.append_assoc]
    refine (applySubmission_triple hdeployed hread (hentries x hx)).conseq (fun _ h => h)
      (fun _ _ h => h) ?_
    rintro e s ⟨he, hinv, hlast, hnew, hrpc⟩
    refine ⟨he, hinv, hlast, fun h => ?_⟩
    rw [hearly h x hx hnew] at hrpc
    cases hrpc

/-- The entries of the submit map of a range. -/
theorem order_submitMap (hdeployed : Deployed chain.env chain.deployed) (kind : BatchKind)
    (fromBlock toBlock : ℕ) (e : Bytes32 × Call) :
    e ∈ poll.order (submitMap (submissions kind
      (chain.getLogs (.submitted kind) fromBlock toBlock))) ↔
        e ∈ submissions kind (chain.logsIn fromBlock toBlock) := by
  have hnodup : ((submissions kind (chain.logsIn fromBlock toBlock)).map Prod.fst).Nodup := by
    have honce := (chain.before_inv hdeployed (max fromBlock (toBlock + 1))).submittedOnce kind
    rw [chain.submissions_before, List.map_append] at honce
    exact honce.of_append_right
  unfold Chain.getLogs
  rw [submissions_filter, submitMap_of_nodup hnodup, (poll.order_perm _).mem_iff]

theorem mem_before_of_order (hdeployed : Deployed chain.env chain.deployed) {kind : BatchKind}
    {fromBlock toBlock : ℕ} {e : Bytes32 × Call}
    (he : e ∈ poll.order (submitMap (submissions kind
      (chain.getLogs (.submitted kind) fromBlock toBlock)))) :
    e ∈ submissions kind (chain.before (max fromBlock (toBlock + 1))).2 := by
  rw [chain.submissions_before]
  exact List.mem_append_right _ ((order_submitMap hdeployed kind _ _ e).mp he)

theorem EarlyCalls.input {fromBlock toBlock : ℕ}
    (h : EarlyCalls chain chunkBlocks poll s₀ fromBlock toBlock)
    (hdeployed : Deployed chain.env chain.deployed) {kind : BatchKind} {e : Bytes32 × Call}
    (he : e ∈ poll.order (submitMap (submissions kind
      (chain.getLogs (.submitted kind) fromBlock toBlock)))) (hnew : ¬ Known s₀ kind e.1) :
    poll.rpc (.submissionInput kind e.1) = true :=
  h.inputs kind e.1 (List.mem_map_of_mem ((order_submitMap hdeployed kind _ _ e).mp he)) hnew

/-- Every submission of a range has its entry in one of the two maps. -/
theorem mem_entries (hdeployed : Deployed chain.env chain.deployed) {kind : BatchKind}
    {fromBlock toBlock : ℕ} {pi : Bytes32}
    (hpi : pi ∈ (submissions kind (chain.logsIn fromBlock toBlock)).map Prod.fst) :
    (kind, pi) ∈ ([] ++ (poll.order (submitMap (submissions .transaction
        (chain.getLogs (.submitted .transaction) fromBlock toBlock)))).map
          fun e => (BatchKind.transaction, e.1)) ++
      (poll.order (submitMap (submissions .bridgeTx
        (chain.getLogs (.submitted .bridgeTx) fromBlock toBlock)))).map
          fun e => (BatchKind.bridgeTx, e.1) := by
  obtain ⟨e, he, rfl⟩ := List.mem_map.mp hpi
  rw [List.nil_append, List.mem_append]
  cases kind with
  | transaction =>
    exact .inl (List.mem_map.mpr ⟨e, (order_submitMap hdeployed _ _ _ e).mpr he, rfl⟩)
  | bridgeTx =>
    exact .inr (List.mem_map.mpr ⟨e, (order_submitMap hdeployed _ _ _ e).mpr he, rfl⟩)

/-- All submissions of the range have been read. -/
theorem Submitting.read {fromBlock toBlock : ℕ}
    (h : Submitting perm chain poll (chain.before fromBlock).2 P s₀ K s)
    (hall : ∀ kind pi, pi ∈ (submissions kind (chain.logsIn fromBlock toBlock)).map Prod.fst →
      (kind, pi) ∈ K) :
    MirrorInv perm chain (chain.before (max fromBlock (toBlock + 1))).2 P s := by
  refine h.inv.withLogs fun kind pi hpi hnot => ?_
  rw [chain.submissions_before, List.map_append, List.mem_append] at hpi
  rcases hpi with hpi | hpi
  · exact h.inv.pending kind pi hpi hnot
  · rcases h.known _ (hall kind pi hpi) with hknown | hknown
    · exact hknown
    · exact absurd (h.inv.confirmed kind pi hknown) hnot

variable (poll) in
theorem processNewSubmissions_triple (hdeployed : Deployed chain.env chain.deployed)
    (hread : Readable chain) (hchunk : 0 < chunkBlocks) (fromBlock toBlock : ℕ)
    (h₀ : MirrorInv perm chain (chain.before fromBlock).2 P s₀) :
    Program.Triple (fun s => s = s₀) (processNewSubmissions chain chunkBlocks poll fromBlock toBlock)
      (fun _ s => MirrorInv perm chain (chain.before (max fromBlock (toBlock + 1))).2 P s ∧
        s.lastSyncedBlock = s₀.lastSyncedBlock ∧
        (∀ kind, Fetched chunkBlocks poll (.submitted kind) fromBlock toBlock) ∧
        ∀ kind pi, pi ∈ (submissions kind (chain.logsIn fromBlock toBlock)).map Prod.fst →
          ¬ Known s₀ kind pi → poll.rpc (.submissionInput kind pi) = true)
      (fun e s => e = .rpc ∧ MirrorInv perm chain (chain.before fromBlock).2 P s ∧
        s.lastSyncedBlock = s₀.lastSyncedBlock ∧
        ¬ EarlyCalls chain chunkBlocks poll s₀ fromBlock toBlock) := by
  unfold processNewSubmissions
  refine triple_fetchLogs chunkBlocks poll chain hchunk (fun htx => ?_) ?_
  · refine triple_fetchLogs chunkBlocks poll chain hchunk (fun hbridge => ?_) ?_
    · have hstart : ∀ s, s = s₀ →
          Submitting perm chain poll (chain.before fromBlock).2 P s₀ [] s := by
        rintro s rfl
        exact ⟨h₀, rfl, List.forall_mem_nil _, fun _ _ => rfl, rfl, List.forall_mem_nil _⟩
      refine Program.triple_bind ((applySubmissions_triple hdeployed hread
        (fun _ he => mem_before_of_order hdeployed he)
        fun h e he => h.input hdeployed he).conseq hstart (fun _ _ h => h) fun _ _ h => h) fun _ => ?_
      refine (applySubmissions_triple hdeployed hread
        (fun _ he => mem_before_of_order hdeployed he)
        fun h e he => h.input hdeployed he).conseq (fun _ h => h) (fun _ s h => ?_) fun _ _ h => h
      refine ⟨h.read fun kind pi => mem_entries hdeployed, h.last, fun kind => ?_,
        fun kind pi hpi hnew => ?_⟩
      · cases kind with
        | transaction => exact htx
        | bridgeTx => exact hbridge
      · exact (h.asked _ (mem_entries hdeployed hpi)).resolve_left hnew
    · rintro hnot s rfl
      exact ⟨rfl, h₀, rfl, fun h => hnot (h.submitted .bridgeTx)⟩
  · rintro hnot s rfl
    exact ⟨rfl, h₀, rfl, fun h => hnot (h.submitted .transaction)⟩

end Submissions

/-! ## Confirmations -/

section Confirmations

variable {perm : State → State} {chain : Chain} {chunkBlocks : ℕ} {poll : Poll}
  {s : StateSyncState}

theorem treeDepth_pos (h : Deployed chain.env chain.deployed) : 0 < chain.deployed.treeDepth := by
  obtain ⟨_, _, _, _, _, _, _, h⟩ := h.deployed
  simp only [constructor, revertIf_bind_eq_ok, pure_eq_ok] at h
  obtain ⟨-, -, -, -, hdepth, -, hstate⟩ := h
  rw [← hstate]
  exact Nat.pos_of_ne_zero fun hzero => hdepth (.inl hzero)

/-- A proven batch is not settled before its turn. -/
theorem not_settled_next (hdeployed : Deployed chain.env chain.deployed) (htx : TxFirst chain)
    {n : ℕ} {done rest : List Proven} {p : Proven}
    (hsplit : provens (chain.before n).2 = done ++ p :: rest) :
    ¬ Settled done p.kind p.piCommitment := by
  rintro ⟨q, hq, hpi, hkind⟩
  have honce := (chain.before_inv hdeployed n).provenOnce
  have hfirst := htx n
  rw [hsplit, List.pairwise_append] at hfirst
  rw [hsplit, List.map_append, List.map_cons, List.nodup_append] at honce
  have hne : q.key ≠ p.key :=
    honce.2.2 q.key (List.mem_map_of_mem hq) p.key List.mem_cons_self
  have horder := hfirst.2.2 q hq p List.mem_cons_self
  cases hp : p.kind with
  | bridgeTx => exact hne (by rw [Proven.key, Proven.key, hpi, hp, hkind hp])
  | transaction =>
    cases hq' : q.kind with
    | bridgeTx => exact horder hq' hp hpi
    | transaction => exact hne (by rw [Proven.key, Proven.key, hpi, hp, hq'])

/-- A proven batch was submitted. -/
theorem Chain.submitted_of_proven (hdeployed : Deployed chain.env chain.deployed) {n : ℕ}
    {p : Proven} (hp : p ∈ provens (chain.before n).2) :
    p.piCommitment ∈ (submissions p.kind (chain.before n).2).map Prod.fst := by
  have hinv := chain.before_inv hdeployed n
  obtain ⟨k, hk⟩ := BatchKind.exists_ofContract p.kind
  rw [hk, hinv.known]
  refine .inr ((hinv.confirmed k p.piCommitment).mpr ?_)
  rw [← hk]
  exact List.mem_map_of_mem hp

/-- The next proven batch is pending. -/
theorem MirrorInv.next_pending (hdeployed : Deployed chain.env chain.deployed)
    (htx : TxFirst chain) {n : ℕ} {done rest : List Proven} {p : Proven}
    (hsplit : provens (chain.before n).2 = done ++ p :: rest)
    (h : MirrorInv perm chain (chain.before n).2 done s) :
    ∃ preimage root, s.pendingBatches p.kind p.piCommitment = some preimage ∧
      readHash preimage 0 = some root ∧ extractBatchRootFromPreimage preimage = .ok root := by
  have hmem : p ∈ provens (chain.before n).2 := by
    rw [hsplit]
    exact List.mem_append_right done List.mem_cons_self
  have hpending := h.pending p.kind p.piCommitment (chain.submitted_of_proven hdeployed hmem)
    (not_settled_next hdeployed htx hsplit)
  obtain ⟨preimage, hpreimage⟩ := Option.isSome_iff_exists.mp hpending
  have horigin := h.origin _ _ _ hpreimage
  obtain ⟨root, hroot⟩ := Option.isSome_iff_exists.mp horigin.header
  refine ⟨preimage, root, hpreimage, hroot, ?_⟩
  rw [extractBatchRootFromPreimage, if_neg (Nat.not_lt_of_le horigin.length), hroot]

/-- The tree has room for the next proven batch. -/
theorem MirrorInv.next_room (hdeployed : Deployed chain.env chain.deployed) {n : ℕ}
    {done rest : List Proven} {p : Proven}
    (hsplit : provens (chain.before n).2 = done ++ p :: rest)
    {ds : List HashOut} (hheaders : List.Forall₂ (HeaderRoot chain) ds done) :
    ds.length < 2 ^ chain.deployed.treeDepth := by
  have hinv := chain.before_inv hdeployed n
  have hcount := congrArg List.length hinv.indices
  rw [List.length_map, List.length_range, hsplit, List.length_append, List.length_cons] at hcount
  have hroom := hinv.room
  rw [hheaders.length_eq]
  omega

/-- Confirming the next proven batch cannot fail. -/
theorem confirmEntry_triple (hdeployed : Deployed chain.env chain.deployed) (htx : TxFirst chain)
    {n : ℕ} {done rest : List Proven} {p : Proven} {entry : ProvenBatchEntry}
    (hsplit : provens (chain.before n).2 = done ++ p :: rest)
    (hentry : decodeProvenLog p = some entry) (genesisBlock searchTo T : ℕ)
    {E : SyncError → StateSyncState → Prop} :
    Program.Triple
      (fun s => MirrorInv perm chain (chain.before n).2 done s ∧ s.lastSyncedBlock = T)
      (confirmEntry perm chain chunkBlocks poll genesisBlock searchTo entry)
      (fun _ s => MirrorInv perm chain (chain.before n).2 (done ++ [p]) s ∧ s.lastSyncedBlock = T)
      E := by
  obtain ⟨newRoot, -, rfl⟩ := Option.map_eq_some_iff.mp hentry
  have hnext := fun s (hs : MirrorInv perm chain (chain.before n).2 done s) =>
    hs.next_pending hdeployed htx hsplit
  unfold confirmEntry
  dsimp only
  refine Program.triple_bind (Q := fun known s => known = true ∧
      MirrorInv perm chain (chain.before n).2 done s ∧ s.lastSyncedBlock = T)
    (Program.triple_read fun s hs => ⟨?_, hs⟩) fun known => ?_
  · obtain ⟨preimage, root, hpending, -, -⟩ := hnext s hs.1
    rw [Bool.or_eq_true]
    cases hkind : p.kind with
    | transaction =>
      rw [hkind] at hpending
      exact .inl (by rw [hpending]; rfl)
    | bridgeTx =>
      rw [hkind] at hpending
      exact .inr (by rw [hpending]; rfl)
  · cases known with
    | false => exact Program.triple_absurd fun s hs => Bool.noConfusion hs.1
    | true =>
      rw [if_pos rfl]
      refine Program.triple_bind (Q := fun pending s => (∃ preimage root,
          pending = some preimage ∧ s.pendingBatches p.kind p.piCommitment = some preimage ∧
          readHash preimage 0 = some root ∧ extractBatchRootFromPreimage preimage = .ok root) ∧
          MirrorInv perm chain (chain.before n).2 done s ∧ s.lastSyncedBlock = T)
        (Program.triple_read fun s hs => ⟨?_, hs.2⟩) fun pending => ?_
      · obtain ⟨preimage, root, hpending, hroot, hextract⟩ := hnext s hs.2.1
        exact ⟨preimage, root, hpending, hpending, hroot, hextract⟩
      · cases pending with
        | none =>
          refine Program.triple_absurd ?_
          rintro s ⟨⟨_, _, hnone, -⟩, -⟩
          cases hnone
        | some preimage =>
          refine Program.triple_bind (Q := fun root s => readHash preimage 0 = some root ∧
              s.pendingBatches p.kind p.piCommitment = some preimage ∧
              MirrorInv perm chain (chain.before n).2 done s ∧ s.lastSyncedBlock = T)
            (Program.triple_ofExcept ?_ ?_) fun root => Program.triple_change ?_ ?_
          · rintro root hok s ⟨⟨preimage', root', heq, hpending, hroot, hextract⟩, hs⟩
            cases heq
            rw [hextract] at hok
            cases hok
            exact ⟨hroot, hpending, hs⟩
          · rintro e herror s ⟨⟨preimage', root', heq, hpending, hroot, hextract⟩, hs⟩
            cases heq
            rw [hextract] at herror
            cases herror
          · rintro s s' ⟨hroot, hpending, hs, hlast⟩ hconfirm
            have hconfirms := confirms_of_confirmBatch hconfirm
            exact ⟨hs.confirm hpending hroot hconfirms, hconfirms.lastSyncedBlock.trans hlast⟩
          · rintro s e ⟨hroot, hpending, hs, hlast⟩ hconfirm
            obtain ⟨ds, hrep, hheaders⟩ := hs.tree
            obtain ⟨s', hs'⟩ := confirmBatch_isOk (treeDepth_pos hdeployed) hrep
              (MirrorInv.next_room hdeployed hsplit hheaders) p.piCommitment root newRoot
            rw [hs'] at hconfirm
            cases hconfirm

/-- The proven batches of a range, in the order of the chain. -/
theorem confirmBatches_triple (hdeployed : Deployed chain.env chain.deployed)
    (hread : Readable chain) (htx : TxFirst chain) (fromBlock toBlock : ℕ)
    (genesisBlock searchTo T : ℕ) {E : SyncError → StateSyncState → Prop} :
    Program.Triple
      (fun s => MirrorInv perm chain (chain.before (max fromBlock (toBlock + 1))).2
        (provens (chain.before fromBlock).2) s ∧ s.lastSyncedBlock = T)
      (Program.forEach (confirmEntry perm chain chunkBlocks poll genesisBlock searchTo)
        ((provens (chain.logsIn fromBlock toBlock)).filterMap decodeProvenLog))
      (fun _ s => MirrorInv perm chain (chain.before (max fromBlock (toBlock + 1))).2
        (provens (chain.before (max fromBlock (toBlock + 1))).2) s ∧ s.lastSyncedBlock = T)
      E := by
  generalize hn : max fromBlock (toBlock + 1) = n
  have hprovens : provens (chain.before n).2 =
      provens (chain.before fromBlock).2 ++ provens (chain.logsIn fromBlock toBlock) := by
    rw [← hn, chain.provens_before]
  -- every log of the range is decoded
  have hdecoded : ∃ entry : Proven → ProvenBatchEntry,
      ∀ p ∈ provens (chain.logsIn fromBlock toBlock), decodeProvenLog p = some (entry p) := by
    refine ⟨fun p => ⟨p.piCommitment, (u256LeToHash p.newTreeRoot).getD 0, p.leafIndex, p.kind⟩, ?_⟩
    intro p hp
    have hsome := hread.proven n p (by rw [hprovens]; exact List.mem_append_right _ hp)
    obtain ⟨root, hroot⟩ := Option.isSome_iff_exists.mp hsome
    simp only [decodeProvenLog, hroot, Option.map_some, Option.getD_some]
  obtain ⟨entry, hentry⟩ := hdecoded
  rw [List.filterMap_eq_map_iff_forall_eq_some.mpr hentry, Program.forEach_map]
  have hloop := Program.triple_forEach (E := E)
    (fun p => confirmEntry perm chain chunkBlocks poll genesisBlock searchTo (entry p))
    (provens (chain.logsIn fromBlock toBlock))
    (fun done s => MirrorInv perm chain (chain.before n).2
      (provens (chain.before fromBlock).2 ++ done) s ∧ s.lastSyncedBlock = T) ?_
  · rw [List.append_nil, ← hprovens] at hloop
    exact hloop
  · intro done p rest hsplit
    have hp : p ∈ provens (chain.logsIn fromBlock toBlock) := by
      rw [hsplit]
      exact List.mem_append_right done List.mem_cons_self
    have hsplit' : provens (chain.before n).2 =
        (provens (chain.before fromBlock).2 ++ done) ++ p :: rest := by
      rw [hprovens, hsplit, List.append_assoc]
    rw [← List.append_assoc]
    exact confirmEntry_triple hdeployed htx hsplit' (hentry p hp) genesisBlock searchTo T

/-- What `collect_proven_batches` returns, sorted. -/
theorem sortByLeafIndex_collected (hdeployed : Deployed chain.env chain.deployed)
    (fromBlock toBlock : ℕ) :
    sortByLeafIndex
      ((provens (chain.getLogs (.proven .transaction) fromBlock toBlock)).filterMap
          decodeProvenLog ++
        (provens (chain.getLogs (.proven .bridgeTx) fromBlock toBlock)).filterMap
          decodeProvenLog) =
      (provens (chain.logsIn fromBlock toBlock)).filterMap decodeProvenLog := by
  unfold Chain.getLogs
  rw [provens_filter, provens_filter]
  apply sortByLeafIndex_provens
  have hindices := (chain.before_inv hdeployed (max fromBlock (toBlock + 1))).indices
  rw [chain.provens_before, List.map_append] at hindices
  have hincreasing := List.pairwise_lt_range (n :=
    (chain.before (max fromBlock (toBlock + 1))).1.imt.leafCount)
  rw [← hindices, List.pairwise_append, List.pairwise_map, List.pairwise_map] at hincreasing
  exact hincreasing.2.1

end Confirmations

end Doxa.StateSync
