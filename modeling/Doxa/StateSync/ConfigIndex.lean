import Doxa.Client.PoolConfig
import Doxa.Contract.SubpoolLog
import Doxa.Lib.CatchUp
import Doxa.StateSync.Poll

/-!
# The index of subpools

`sync_config_tree` reads the assignments and the root updates of its range, registers new
subpools in the order of their ids, takes over the new roots and builds the config tree anew from
the roots it knows. The first sync of a service does not use the updates: it asks the contract
for the current root of every registered subpool.

Each of its loops is described by what it does to the map of roots: the assignments add ids
(`foldl_applyAssigned`), the updates and the calls of the contract set roots (`RootsSet`), and the
map of the ids `1` to `count` gives a tree (`buildConfigTree_ok`).
-/

namespace Doxa.StateSync

open Lib Contract Function Trees Client

/-! ## The history -/

namespace Chain

variable (chain : Chain)

/-- The contract after block `n`. -/
def contract (n : ℕ) : ContractState := (chain.before (n + 1)).1

/-- The events of block `n`. -/
def subpoolLogs (n : ℕ) : List SubpoolLog :=
  (runLog (Contract.step chain.env) subpoolLog (chain.before n).1 (chain.blocks n)).2

end Chain

/-! ## The index -/

structure SubpoolAssignedEvent where
  subpoolId : BitVec 64
  owner : Address
  blockNumber : ℕ
  deriving DecidableEq, Repr

structure ConfigIndex where
  subpoolRoots : AList fun _ : BitVec 64 => HashOut
  /-- Assignments whose predecessor is not registered. -/
  pendingSubpoolAssignments : AList fun _ : BitVec 64 => SubpoolAssignedEvent
  nextExpectedSubpoolId : BitVec 64
  configTree : MainPoolConfigTree

/-- What the calls of the node depend on. -/
structure ConfigNode where
  rpc : RpcCall → Bool
  /-- The calls of `subpoolRoots` that succeed. -/
  subpoolRoots : BitVec 64 → Bool

abbrev ConfigProgram := Program SyncError ConfigIndex

def subpoolEvent : SubpoolLog → EventKind
  | .assigned _ _ => .subpoolOwnerAssigned
  | .updated _ _ => .subpoolRootUpdated

namespace ConfigIndex

section Operations

variable (self : ConfigIndex)

def empty (configTree : MainPoolConfigTree) : ConfigIndex where
  subpoolRoots := ∅
  pendingSubpoolAssignments := ∅
  nextExpectedSubpoolId := 1
  configTree := configTree

/-- `entry(id).or_insert(ZERO)`, and the next id is expected. -/
def register (subpoolId : BitVec 64) : ConfigIndex :=
  { self with
    subpoolRoots := if subpoolId ∈ self.subpoolRoots then self.subpoolRoots
      else self.subpoolRoots.insert subpoolId 0
    nextExpectedSubpoolId := self.nextExpectedSubpoolId + 1 }

/-- `while let Some(event) = pending.remove(&next)`; every round removes an assignment, so `fuel`
is enough when it counts them. -/
def drain : ℕ → ConfigIndex → ConfigIndex
  | 0, self => self
  | fuel + 1, self =>
    match self.pendingSubpoolAssignments.lookup self.nextExpectedSubpoolId with
    | some bufferedEvent =>
      drain fuel (register { self with
        pendingSubpoolAssignments :=
          self.pendingSubpoolAssignments.erase self.nextExpectedSubpoolId }
        bufferedEvent.subpoolId)
    | none => self

def assign (event : SubpoolAssignedEvent) : ConfigIndex :=
  if event.subpoolId = self.nextExpectedSubpoolId then
    drain self.pendingSubpoolAssignments.entries.length (self.register event.subpoolId)
  else if self.nextExpectedSubpoolId < event.subpoolId then
    { self with
      pendingSubpoolAssignments :=
        self.pendingSubpoolAssignments.insert event.subpoolId event }
  else self

def applyAssigned : ℕ × SubpoolLog → ConfigIndex
  | (block, .assigned subpoolId owner) => self.assign ⟨subpoolId, owner, block⟩
  | _ => self

def setRoot (subpoolId : BitVec 64) (root : HashOut) : ConfigIndex :=
  { self with subpoolRoots := self.subpoolRoots.insert subpoolId root }

/-- `(1..next_expected_subpool_id).collect()`. -/
def registeredIds : List (BitVec 64) :=
  (List.range' 1 (self.nextExpectedSubpoolId.toNat - 1)).map (BitVec.ofNat 64)

/-- The roots by id. -/
def sorted : List (BitVec 64 × HashOut) :=
  (self.subpoolRoots.entries.map fun e => (e.1, e.2)).mergeSort fun a b => a.1 ≤ b.1

end Operations

section Sync

variable (perm : State → State) (chain : Chain) (chunkBlocks : ℕ) (node : ConfigNode)

/-- A tree over the roots of the subpools, in this order. -/
def buildConfigTree (roots : List (BitVec 64 × HashOut)) : Except Failure MainPoolConfigTree := do
  let tree ← MainPoolConfigTree.new perm
  roots.foldlM (fun tree (e : BitVec 64 × HashOut) =>
    tree.insertSubpoolAtPosition perm (e.1.toNat : F) e.2) tree

/-- `.expect("config tree rebuild")`. -/
def rebuildConfigTree (self : ConfigIndex) : Except SyncError ConfigIndex :=
  match buildConfigTree perm self.sorted with
  | .ok tree => .ok { self with configTree := tree }
  | .error _ => .error .panic

/-- `eth_getLogs` with an event signature. -/
def fetchPage (event : EventKind) (chunkStart chunkEnd : ℕ) :
    ConfigProgram (List (ℕ × SubpoolLog)) :=
  if node.rpc (.getLogs event chunkStart chunkEnd) then
    pure (blocksIn (fun n => (chain.subpoolLogs n).filter fun log => subpoolEvent log = event)
      chunkStart chunkEnd)
  else Program.fail .rpc

def fetchLogs (event : EventKind) (fromBlock toBlock : ℕ) :
    ConfigProgram (List (ℕ × SubpoolLog)) :=
  readPages chunkBlocks (fetchPage chain node event) toBlock (toBlock + 1 - fromBlock) fromBlock

/-- The root the contract has at the end of the range. -/
def readSubpoolRoot (toBlock : ℕ) (subpoolId : BitVec 64) : ConfigProgram Unit :=
  if node.subpoolRoots subpoolId then
    match u256LeToHash ((chain.contract toBlock).subpoolRoots subpoolId) with
    | some root => Program.change fun s => .ok (s.setRoot subpoolId root)
    | none => Program.fail .limbOutOfRange
  else Program.fail .rpc

def applyUpdated : ℕ × SubpoolLog → ConfigProgram Unit
  | (_, .updated subpoolId newSubpoolRoot) =>
    match u256LeToHash newSubpoolRoot with
    | some newRoot => Program.change fun s => .ok (s.setRoot subpoolId newRoot)
    | none => Program.fail .limbOutOfRange
  | _ => pure ()

def syncConfigTree (genesisBlock fromBlock toBlock : ℕ) : ConfigProgram Unit := do
  let assignedLogs ← fetchLogs chain chunkBlocks node .subpoolOwnerAssigned fromBlock toBlock
  let updatedLogs ← fetchLogs chain chunkBlocks node .subpoolRootUpdated fromBlock toBlock
  Program.change fun s => .ok (assignedLogs.foldl applyAssigned s)
  if fromBlock = genesisBlock then do
    let registeredSubpoolIds ← Program.read registeredIds
    Program.forEach (readSubpoolRoot chain node toBlock) registeredSubpoolIds
  else Program.forEach applyUpdated updatedLogs
  Program.change (rebuildConfigTree perm)

/-- The first sync; a service whose config tree has another depth is not started. -/
def syncFromGenesis (genesisBlock latestBlock : ℕ) : Except SyncError ConfigIndex :=
  if chain.deployed.configTreeDepth ≠ Circuit.MAIN_POOL_CONFIG_DEPTH then .error .configTreeDepth
  else
    match MainPoolConfigTree.new perm with
    | .error _ => .error .panic
    | .ok configTree =>
      match syncConfigTree perm chain chunkBlocks node genesisBlock genesisBlock latestBlock
        (empty configTree) with
      | (.ok _, index) => .ok index
      | (.error e, _) => .error e

/-- The sync of a poll; it passes `0` as the first block, and never starts there. -/
def pollConfigTree (node : ConfigNode) (fromBlock toBlock : ℕ) : ConfigProgram Unit :=
  syncConfigTree perm chain chunkBlocks node 0 fromBlock toBlock

end Sync

end ConfigIndex

/-! ## The events of a range -/

section History

variable {chain : Chain}

/-- The logs do not influence the contract. -/
theorem run_emitStep_fst (env : Env) (x : ContractState × List Log) (calls : List Call) :
    (run (emitStep env) x calls).1 = run (Contract.step env) x.1 calls := by
  induction calls using List.reverseRecOn with
  | nil => rfl
  | append_singleton calls c ih =>
    rw [run_concat, run_concat, ← ih]
    obtain ⟨s, l⟩ := run (emitStep env) x calls
    cases hstep : Contract.step env c s with
    | ok s' => rw [attempt_ok (emitStep_ok hstep), attempt_ok hstep]
    | error e => rw [attempt_error (emitStep_error hstep), attempt_error hstep]

variable (chain) in
theorem Chain.before_fst (n : ℕ) : (chain.before n).1 =
    run (Contract.step chain.env) chain.deployed ((List.range n).flatMap chain.blocks) :=
  run_emitStep_fst chain.env (chain.deployed, []) _

variable (chain) in
theorem Chain.before_fst_succ (n : ℕ) : (chain.before (n + 1)).1 =
    (runLog (Contract.step chain.env) subpoolLog (chain.before n).1 (chain.blocks n)).1 := by
  rw [chain.before_succ, run_emitStep_fst, runLog_fst]

variable (chain) in
theorem Chain.range_tells (a k : ℕ) :
    Tells (chain.before a).1 ((List.range' a k).flatMap chain.subpoolLogs)
      (chain.before (a + k)).1 := by
  induction k with
  | zero => exact .refl _
  | succ k ih =>
    rw [List.range'_concat, List.flatMap_append, List.flatMap_singleton, Nat.one_mul]
    refine ih.trans ?_
    rw [← Nat.add_assoc, Chain.before_fst_succ]
    exact run_tells _ _

variable (chain) in
/-- The events of a range of blocks tell what happened in it. -/
theorem Chain.tells {a b : ℕ} (h : a ≤ b + 1) :
    Tells (chain.before a).1 ((blocksIn chain.subpoolLogs a b).map Prod.snd)
      (chain.contract b) := by
  have hend : b + 1 = a + (b + 1 - a) := by omega
  rw [blocksIn_snd, Chain.contract, hend, Nat.add_sub_cancel_left]
  exact chain.range_tells _ _

/-- An id that has a leaf, a root that is a digest and not zero. -/
def LogWithin (depth : ℕ) : SubpoolLog → Prop
  | .assigned subpoolId _ => subpoolId.toNat < 2 ^ depth
  | .updated _ newSubpoolRoot => newSubpoolRoot ≠ 0 ∧ (u256LeToHash newSubpoolRoot).isSome

/-- All events of the history are within the tree. -/
def Chain.SubpoolsWithin (chain : Chain) : Prop :=
  ∀ n, ∀ log ∈ chain.subpoolLogs n, LogWithin chain.deployed.configTreeDepth log

theorem Chain.SubpoolsWithin.within (hwithin : chain.SubpoolsWithin) {a b : ℕ}
    {log : SubpoolLog} (h : log ∈ (blocksIn chain.subpoolLogs a b).map Prod.snd) :
    LogWithin chain.deployed.configTreeDepth log := by
  obtain ⟨x, hx, rfl⟩ := List.mem_map.mp h
  exact hwithin x.1 x.2 (mem_blocksIn hx)

theorem u256LeToHash_zero : u256LeToHash 0 = some 0 := by
  unfold u256LeToHash
  have hzero : (0 : U256).toNat = 0 := rfl
  simp only [hzero, Nat.zero_div, Nat.zero_mod]
  rw [if_pos fun _ => by decide]
  exact congrArg some (funext fun _ => Nat.cast_zero)

end History

/-! ## One range -/

namespace ConfigIndex

/-- The ids `1` to `count` are registered, with the old roots or zero. -/
structure Registered (old : BitVec 64 → Option HashOut) (count : ℕ) (index : ConfigIndex) :
    Prop where
  next : index.nextExpectedSubpoolId.toNat = count + 1
  waiting : index.pendingSubpoolAssignments = ∅
  roots : ∀ id, index.subpoolRoots.lookup id =
    if 1 ≤ id.toNat ∧ id.toNat ≤ count then some ((old id).getD 0) else none

section Range

variable {old : BitVec 64 → Option HashOut} {count count' : ℕ} {index : ConfigIndex}

theorem assign_again (h : Registered old count index) {event : SubpoolAssignedEvent}
    (hid : event.subpoolId.toNat ≤ count) : index.assign event = index := by
  have hnext := h.next
  have hne : event.subpoolId ≠ index.nextExpectedSubpoolId := by
    intro heq
    rw [heq] at hid
    omega
  have hlt : ¬ index.nextExpectedSubpoolId < event.subpoolId := by
    rw [BitVec.lt_def]
    omega
  rw [assign, if_neg hne, if_neg hlt]

theorem assign_next (h : Registered old count index) {event : SubpoolAssignedEvent}
    (hid : event.subpoolId.toNat = count + 1) (hbound : count + 2 < 2 ^ 64)
    (hold : old event.subpoolId = none) : Registered old (count + 1) (index.assign event) := by
  have heq : event.subpoolId = index.nextExpectedSubpoolId :=
    BitVec.eq_of_toNat_eq (hid.trans h.next.symm)
  have hfresh : event.subpoolId ∉ index.subpoolRoots := by
    rw [← AList.lookup_eq_none, h.roots, if_neg (by omega)]
  have hdrain : index.assign event = index.register event.subpoolId := by
    rw [assign, if_pos heq, h.waiting]
    rfl
  rw [hdrain, register, if_neg hfresh]
  refine ⟨?_, h.waiting, fun id => ?_⟩
  · have hone : (1 : BitVec 64).toNat = 1 := rfl
    rw [BitVec.toNat_add, h.next, hone, Nat.mod_eq_of_lt (by omega)]
  · by_cases hj : id = event.subpoolId
    · subst hj
      rw [AList.lookup_insert, if_pos (by omega), hold]
      rfl
    · have hne : id.toNat ≠ count + 1 := fun hn => hj (BitVec.eq_of_toNat_eq (hn.trans hid.symm))
      rw [AList.lookup_insert_ne hj, h.roots]
      exact if_congr (by omega) rfl rfl

/-- The assignments of a range. -/
theorem foldl_applyAssigned {L : List (ℕ × SubpoolLog)}
    (hL : Assigns count (assignedIds (L.map Prod.snd)) count') (hbound : count' + 1 < 2 ^ 64)
    (hold : ∀ id, count < id.toNat → old id = none) (h : Registered old count index) :
    Registered old count' (L.foldl applyAssigned index) := by
  induction L generalizing index count with
  | nil =>
    cases hL
    exact h
  | cons x L ih =>
    obtain ⟨block, log⟩ := x
    rw [List.foldl_cons]
    cases log with
    | updated id r => exact ih hL hold h
    | assigned id owner =>
      simp only [List.map_cons, assignedIds, List.filterMap_cons, assignedId] at hL
      cases hL with
      | again hpos hle hrest =>
        refine ih hrest hold ?_
        simp only [applyAssigned]
        rw [assign_again h hle]
        exact h
      | next hnext hrest =>
        have hle := hrest.le
        exact ih hrest (fun j hj => hold j (by omega))
          (assign_next h hnext (by omega) (hold id (by omega)))

/-- Both loops over roots set some of them and nothing else. -/
structure RootsSet (roots : BitVec 64 → Option HashOut) (index index' : ConfigIndex) : Prop where
  next : index'.nextExpectedSubpoolId = index.nextExpectedSubpoolId
  waiting : index'.pendingSubpoolAssignments = index.pendingSubpoolAssignments
  roots : ∀ id, index'.subpoolRoots.lookup id = (roots id).or (index.subpoolRoots.lookup id)

theorem RootsSet.setRoot {roots : BitVec 64 → Option HashOut} {index' : ConfigIndex}
    {subpoolId : BitVec 64} {root : HashOut}
    (h : RootsSet roots (index.setRoot subpoolId root) index') :
    RootsSet (fun id => (roots id).or (if id = subpoolId then some root else none)) index index' where
  next := h.next
  waiting := h.waiting
  roots := by
    intro id
    rw [h.roots, ConfigIndex.setRoot]
    by_cases hid : id = subpoolId
    · subst hid
      rw [AList.lookup_insert, if_pos rfl, Option.or_assoc, Option.some_or]
    · rw [AList.lookup_insert_ne hid, if_neg hid, Option.or_none]

/-- The root an event of a range gives last, as a digest. -/
def lastRoot (L : List (ℕ × SubpoolLog)) (id : BitVec 64) : Option HashOut :=
  (lastUpdate id (L.map Prod.snd)).bind u256LeToHash

variable (index) in
theorem forEach_applyUpdated {L : List (ℕ × SubpoolLog)}
    (hL : ∀ id r, .updated id r ∈ L.map Prod.snd → (u256LeToHash r).isSome) :
    ∃ index', Program.forEach applyUpdated L index = (.ok (), index') ∧
      RootsSet (lastRoot L) index index' := by
  induction L generalizing index with
  | nil => exact ⟨index, rfl, rfl, rfl, fun _ => rfl⟩
  | cons x L ih =>
    have hrest := fun id r hmem => hL id r (List.mem_cons_of_mem _ hmem)
    have hlast : ∀ id, lastUpdate id ((x :: L).map Prod.snd) =
        (lastUpdate id (L.map Prod.snd)).or (updateOf id x.2) := by
      intro id
      rw [← lastUpdate_singleton, ← lastUpdate_append]
      rfl
    obtain ⟨block, log⟩ := x
    rw [Program.forEach]
    cases log with
    | assigned id owner =>
      obtain ⟨index', hrun, hset⟩ := @ih index hrest
      refine ⟨index', hrun, hset.next, hset.waiting, fun j => ?_⟩
      rw [hset.roots, lastRoot, lastRoot, hlast]
      simp only [updateOf, Option.or_none]
    | updated id r =>
      obtain ⟨root, hroot⟩ := Option.isSome_iff_exists.mp (hL id r List.mem_cons_self)
      obtain ⟨index', hrun, hset⟩ := @ih (index.setRoot id root) hrest
      refine ⟨index', ?_, hset.next, hset.waiting, fun j => ?_⟩
      · simp only [applyUpdated, hroot]
        exact hrun
      · rw [hset.setRoot.roots, lastRoot, lastRoot, hlast]
        cases hj : lastUpdate j (L.map Prod.snd) with
        | none =>
          by_cases hid : j = id
          · simp only [updateOf, hid, if_true, hroot, Option.bind_none, Option.none_or,
              Option.bind_some]
          · simp only [updateOf, if_neg hid, if_neg (Ne.symm hid), Option.bind_none, Option.none_or]
        | some r' =>
          obtain ⟨root', hroot'⟩ := Option.isSome_iff_exists.mp (hrest j r' (mem_of_lastUpdate hj))
          simp only [Option.bind_some, hroot', Option.some_or]

variable (index) in
/-- The roots of the ids, from the contract. -/
theorem forEach_readSubpoolRoot (chain : Chain) (node : ConfigNode) {toBlock : ℕ}
    (hroots : ∀ id, (u256LeToHash ((chain.contract toBlock).subpoolRoots id)).isSome)
    (ids : List (BitVec 64)) :
    (∃ index', Program.forEach (readSubpoolRoot chain node toBlock) ids index =
        (.ok (), index') ∧
      RootsSet (fun id => if id ∈ ids then u256LeToHash ((chain.contract toBlock).subpoolRoots id)
        else none) index index') ∨
    (∃ index', Program.forEach (readSubpoolRoot chain node toBlock) ids index =
        (.error .rpc, index')) ∧ ∃ id, node.subpoolRoots id = false := by
  induction ids generalizing index with
  | nil => exact .inl ⟨index, rfl, rfl, rfl, fun _ => rfl⟩
  | cons id ids ih =>
    rw [Program.forEach]
    cases hcall : node.subpoolRoots id with
    | false =>
      refine .inr ⟨⟨index, ?_⟩, id, hcall⟩
      simp only [readSubpoolRoot, hcall, Bool.false_eq_true, if_false, Program.fail_bind]
      rfl
    | true =>
      obtain ⟨root, hroot⟩ := Option.isSome_iff_exists.mp (hroots id)
      have hread : readSubpoolRoot chain node toBlock id index =
          (.ok (), index.setRoot id root) := by
        simp only [readSubpoolRoot, hcall, if_true, hroot]
        rfl
      rw [Program.bind_ok hread]
      rcases @ih (index.setRoot id root) with ⟨index', hrun, hset⟩ | hfail
      · refine .inl ⟨index', hrun, hset.next, hset.waiting, fun j => ?_⟩
        rw [hset.setRoot.roots]
        by_cases hj : j = id
        · subst hj
          simp only [List.mem_cons_self, if_true, hroot]
          split_ifs <;> rfl
        · simp only [List.mem_cons, hj, false_or, if_false, Option.or_none]
      · exact .inr hfail

/-- The root of id `i`, zero when it is not registered. -/
def rootAt (index : ConfigIndex) (i : ℕ) : HashOut :=
  (index.subpoolRoots.lookup (BitVec.ofNat 64 i)).getD 0

/-- The registered ids, sorted, are `1` to `count`. -/
theorem sorted_eq (hids : ∀ id, id ∈ index.subpoolRoots ↔ 1 ≤ id.toNat ∧ id.toNat ≤ count)
    (hcount : count < 2 ^ 64) :
    index.sorted = (List.range' 1 count).map fun i => (BitVec.ofNat 64 i, index.rootAt i) := by
  have hval : ∀ i ∈ List.range' 1 count, (BitVec.ofNat 64 i).toNat = i := by
    intro i hi
    have hrange := List.mem_range'_1.mp hi
    exact Nat.mod_eq_of_lt (by omega)
  have hkeys : (index.subpoolRoots.entries.map fun e => (e.1, e.2)).map Prod.fst =
      index.subpoolRoots.keys := List.map_map
  have hnodup : (index.subpoolRoots.entries.map fun e => (e.1, e.2)).Nodup :=
    List.Nodup.of_map Prod.fst (hkeys ▸ index.subpoolRoots.keys_nodup)
  have hnodup' : ((List.range' 1 count).map fun i => (BitVec.ofNat 64 i, index.rootAt i)).Nodup := by
    refine List.Nodup.map_on (fun i hi j hj h => ?_) List.nodup_range'
    have hij := congrArg BitVec.toNat (Prod.mk.inj h).1
    rwa [hval i hi, hval j hj] at hij
  have hperm : (index.subpoolRoots.entries.map fun e => (e.1, e.2)).Perm
      ((List.range' 1 count).map fun i => (BitVec.ofNat 64 i, index.rootAt i)) := by
    rw [List.perm_ext_iff_of_nodup hnodup hnodup']
    rintro ⟨id, root⟩
    have hentry : (id, root) ∈ index.subpoolRoots.entries.map (fun e => (e.1, e.2)) ↔
        index.subpoolRoots.lookup id = some root := by
      rw [← Option.mem_def, AList.mem_lookup_iff, List.mem_map]
      constructor
      · rintro ⟨e, he, heq⟩
        cases heq
        exact he
      · intro he
        exact ⟨_, he, rfl⟩
    rw [hentry, List.mem_map]
    constructor
    · intro hlookup
      have hmem := (hids id).mp (AList.lookup_isSome.mp (by rw [hlookup]; rfl))
      refine ⟨id.toNat, List.mem_range'_1.mpr (by omega), ?_⟩
      rw [rootAt, BitVec.ofNat_toNat, BitVec.setWidth_eq, hlookup]
      rfl
    · rintro ⟨i, hi, heq⟩
      cases heq
      have hrange := List.mem_range'_1.mp hi
      have hsome := AList.lookup_isSome.mpr ((hids (BitVec.ofNat 64 i)).mpr (by
        rw [hval i hi]
        omega))
      obtain ⟨root, hroot⟩ := Option.isSome_iff_exists.mp hsome
      rw [rootAt, hroot]
      rfl
  refine List.Perm.eq_of_pairwise ?_ (List.pairwise_mergeSort ?_ ?_ _) ?_
    ((List.mergeSort_perm _ _).trans hperm)
  · intro a b ha hb hab hba
    have hkey : a.1 = b.1 := BitVec.le_antisymm (of_decide_eq_true hab) (of_decide_eq_true hba)
    have ha' := hperm.subset (List.mem_mergeSort.mp ha)
    obtain ⟨i, -, rfl⟩ := List.mem_map.mp ha'
    obtain ⟨j, -, rfl⟩ := List.mem_map.mp hb
    dsimp only at hkey ⊢
    rw [rootAt, rootAt, hkey]
  · intro a b c hab hbc
    exact decide_eq_true (BitVec.le_trans (of_decide_eq_true hab) (of_decide_eq_true hbc))
  · intro a b
    have htotal := BitVec.le_total a.1 b.1
    simpa using htotal
  · refine List.pairwise_map.mpr (List.Pairwise.imp_of_mem ?_ (List.pairwise_le_range' (s := 1)))
    intro i j hi hj hij
    refine decide_eq_true ?_
    rw [BitVec.le_def, hval i hi, hval j hj]
    exact hij

theorem buildConfigTree_ok (perm : State → State)
    (hids : ∀ id, id ∈ index.subpoolRoots ↔ 1 ≤ id.toNat ∧ id.toNat ≤ count)
    (hcount : count < 2 ^ Circuit.MAIN_POOL_CONFIG_DEPTH) :
    ∃ tree, buildConfigTree perm index.sorted = .ok tree ∧
      Represents (hashOutput perm) Circuit.MAIN_POOL_CONFIG_DEPTH
        (MainPoolConfigTree.leavesOf perm index.rootAt count) tree.inner := by
  have hbound : count < 2 ^ 64 := Nat.lt_trans hcount (by decide)
  have hzero : index.rootAt 0 = 0 := by
    have hnone : index.subpoolRoots.lookup (BitVec.ofNat 64 0) = none := by
      rw [AList.lookup_eq_none, hids]
      intro h
      exact absurd h.1 (by decide)
    rw [rootAt, hnone]
    rfl
  obtain ⟨tree₀, hnew, hrep₀⟩ := MainPoolConfigTree.new_empty perm index.rootAt
  obtain ⟨tree, hins, hrep⟩ := MainPoolConfigTree.insertSubpools_represents hzero hcount hrep₀
  refine ⟨tree, ?_, hrep⟩
  have hloop : ∀ n, n < 2 ^ 64 → ((List.range' 1 n).map fun i =>
      (BitVec.ofNat 64 i, index.rootAt i)).foldlM (fun tree (e : BitVec 64 × HashOut) =>
        tree.insertSubpoolAtPosition perm (e.1.toNat : F) e.2) tree₀ =
      MainPoolConfigTree.insertSubpools perm index.rootAt n tree₀ := by
    intro n hn
    induction n with
    | zero => rfl
    | succ n ih =>
      unfold MainPoolConfigTree.insertSubpools at ih ⊢
      have hlast : (BitVec.ofNat 64 (1 + 1 * n)).toNat = 1 + 1 * n := Nat.mod_eq_of_lt (by omega)
      rw [List.range'_concat, List.map_append, List.foldlM_append, List.foldlM_append,
        ih (by omega)]
      simp only [List.map_singleton, List.foldlM_cons, hlast, List.foldlM_nil]
  unfold buildConfigTree
  rw [hnew, sorted_eq hids hbound]
  exact (hloop count hbound).trans hins

end Range

end ConfigIndex

end Doxa.StateSync
