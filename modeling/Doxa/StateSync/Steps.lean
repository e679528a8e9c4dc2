import Doxa.StateSync.Entries
import Doxa.StateSync.State

/-!
# What applying and confirming a batch does

One inversion lemma for each of the two operations: `Applies` and `Confirms` say what a
successful operation did to every map. A parsed batch has its 512 commitments in the order
of their positions, so that the leaves kept for a pending batch are exactly its commitments.

A run is a sequence of operations in any order; its record (`Entry`) has the batches as they
were applied and the confirmations.
-/

namespace Doxa.StateSync

open Lib Trees Contract Function

/-! ## Parsed batches -/

/-- The leaves of the subtree of a batch. -/
def ParsedBatch.leaves (b : ParsedBatch) : List HashOut := b.commitments.map Prod.fst

/-- What an operation reads of a preimage; `none` when the operation fails. -/
def parsed (kind : BatchKind) (preimage : List (BitVec 8)) : Option ParsedBatch :=
  if preimage.length < preimageLen kind then none else parsePreimage kind preimage

theorem map_snd_of_mapM {α β : Type} {f : α → Option β} {xs : List (α × ℕ)} {ys : List (β × ℕ)}
    (h : (xs.mapM fun x => (f x.1).map fun y => (y, x.2)) = some ys) :
    ys.map Prod.snd = xs.map Prod.snd := by
  induction xs generalizing ys with
  | nil =>
    cases h
    rfl
  | cons x xs ih =>
    rw [List.mapM_cons, Option.bind_eq_bind, Option.bind_eq_some_iff] at h
    obtain ⟨y, hy, h⟩ := h
    rw [Option.bind_eq_bind, Option.bind_eq_some_iff] at h
    obtain ⟨zs, hzs, h⟩ := h
    obtain ⟨z, -, rfl⟩ := Option.map_eq_some_iff.mp hy
    cases h
    rw [List.map_cons, List.map_cons, ih hzs]

/-- The commitments stand in the order of their positions. -/
theorem parsePreimage_positions {kind : BatchKind} {preimage : List (BitVec 8)} {b : ParsedBatch}
    (h : parsePreimage kind preimage = some b) : b.commitments.map Prod.snd = List.range 512 := by
  cases kind with
  | transaction =>
    obtain ⟨commitments, hcommitments, h⟩ := Option.bind_eq_some_iff.mp h
    obtain ⟨nullifiers, -, h⟩ := Option.bind_eq_some_iff.mp h
    cases h
    refine (map_snd_of_mapM hcommitments).trans ?_
    decide +kernel
  | bridgeTx =>
    obtain ⟨commitments, hcommitments, h⟩ := Option.bind_eq_some_iff.mp h
    obtain ⟨nullifiers, -, h⟩ := Option.bind_eq_some_iff.mp h
    cases h
    refine (map_snd_of_mapM hcommitments).trans ?_
    decide +kernel

/-! ## Applying a batch -/

section Apply

variable {s s' : StateSyncState} {kind : BatchKind} {preimage : List (BitVec 8)} {pi : Bytes32}
  {b : ParsedBatch}

/-- What a batch `b` applied under `pi` changes. -/
structure Applies (kind : BatchKind) (preimage : List (BitVec 8)) (pi : Bytes32) (b : ParsedBatch)
    (s s' : StateSyncState) : Prop where
  locations : s'.commitmentToBatch =
    writeAll Prod.fst (fun c => ⟨pi, c.2, false⟩) s.commitmentToBatch b.commitments
  leaves : ∃ v : Vector HashOut 512, v.toList = b.leaves ∧
    s'.pendingBatchLeaves = update s.pendingBatchLeaves pi (some v)
  nullifiers : ∀ n, s'.pendingNullifiers n =
    if n ∈ b.nullifiers then some pi else s.pendingNullifiers n
  pending : s'.pendingBatches =
    update s.pendingBatches kind (update (s.pendingBatches kind) pi (some preimage))
  stateTree : s'.stateTree = s.stateTree
  leafIndex : s'.batchRootToLeafIndex = s.batchRootToLeafIndex
  subtrees : s'.confirmedBatchSubtrees = s.confirmedBatchSubtrees
  roots : s'.piToBatchRoot = s.piToBatchRoot
  confirmed : s'.confirmedBatches = s.confirmedBatches
  confirmedNullifiers : s'.confirmedNullifiers = s.confirmedNullifiers
  lastSyncedBlock : s'.lastSyncedBlock = s.lastSyncedBlock

theorem take_set_succ {α : Type*} {n m : ℕ} (v : Vector α n) (x : α) (h : m < n) :
    (v.set m x).toList.take (m + 1) = v.toList.take m ++ [x] := by
  have hm : m < v.toList.length := by rw [Vector.length_toList]; exact h
  rw [Vector.toList_set, List.set_eq_take_append_cons_drop, if_pos hm, List.take_append,
    List.length_take_of_le hm.le, Nat.add_sub_cancel_left, List.take_of_length_le (by simp)]
  rfl

/-- The commitments change two maps. -/
theorem addCommitments_eq (cs : List (HashOut × ℕ)) (pi : Bytes32) (s : StateSyncState) :
    ∃ leaves, cs.foldl (fun s c => s.addPendingCommitment c.1 pi c.2) s =
      { s with
        commitmentToBatch :=
          writeAll Prod.fst (fun c => ⟨pi, c.2, false⟩) s.commitmentToBatch cs
        pendingBatchLeaves := leaves } ∧ (∀ q, q ≠ pi → leaves q = s.pendingBatchLeaves q) ∧
      (cs ≠ [] → (leaves pi).isSome) ∧
      ∀ n ≤ 512, cs.map Prod.snd = List.range n →
        ((leaves pi).getD (Vector.replicate 512 0)).toList.take n = cs.map Prod.fst := by
  induction cs using List.reverseRecOn with
  | nil =>
    refine ⟨s.pendingBatchLeaves, rfl, fun q _ => rfl, fun h => absurd rfl h, ?_⟩
    intro n _ hn
    have hzero : n = 0 := by simpa using (congrArg List.length hn).symm
    rw [hzero]
    rfl
  | append_singleton cs c ih =>
    obtain ⟨leaves, hfold, hother, -, htake⟩ := ih
    rw [List.foldl_append, hfold, writeAll_concat]
    refine ⟨_, rfl, fun q hq => ?_, fun _ => ?_, ?_⟩
    · rw [update_of_ne hq]
      exact hother q hq
    · rw [update_self]
      rfl
    · intro n hn hpositions
      rw [update_self, Option.getD_some]
      cases n with
      | zero => simp at hpositions
      | succ m =>
        rw [List.map_append, List.range_succ] at hpositions
        obtain ⟨hinit, hlast⟩ := List.append_inj' hpositions rfl
        obtain ⟨x, i⟩ := c
        obtain rfl : i = m := List.singleton_inj.mp hlast
        have hi : i < 512 := hn
        rw [dif_pos (show (x, i).2 < 512 from hi), List.map_append]
        refine (take_set_succ _ x hi).trans ?_
        exact congrArg (· ++ [x]) (htake i hi.le hinit)

theorem addNullifiers_eq (ns : List HashOut) (pi : Bytes32) (s : StateSyncState) :
    ns.foldl (fun s n => s.addPendingNullifier n pi) s =
      { s with pendingNullifiers := writeAll id (fun _ => pi) s.pendingNullifiers ns } := by
  induction ns using List.reverseRecOn with
  | nil => rfl
  | append_singleton ns n ih =>
    rw [List.foldl_append, ih, writeAll_concat]
    rfl

theorem applies_of_applyPreimage (h : applyPreimage kind preimage pi s = .ok s') :
    ∃ b, parsed kind preimage = some b ∧ Applies kind preimage pi b s s' := by
  unfold applyPreimage at h
  unfold parsed
  split at h
  · cases h
  · rename_i hlength
    rw [if_neg hlength]
    split at h
    · cases h
    · rename_i b hb
      cases h
      refine ⟨b, hb, ?_⟩
      have hpositions := parsePreimage_positions hb
      have hne : b.commitments ≠ [] := by
        intro hnil
        have hlength := congrArg List.length hpositions
        rw [hnil, List.length_range] at hlength
        cases hlength
      obtain ⟨leaves, hcommitments, hother, hsome, htake⟩ := addCommitments_eq b.commitments pi s
      obtain ⟨v, hv⟩ := Option.isSome_iff_exists.mp (hsome hne)
      have hleaves := htake 512 le_rfl hpositions
      rw [hv, Option.getD_some, List.take_of_length_le (by simp)] at hleaves
      have hadd : s.addBatch b pi = _ :=
        (congrArg (b.nullifiers.foldl _) hcommitments).trans (addNullifiers_eq b.nullifiers pi _)
      rw [hadd]
      refine ⟨rfl, ⟨v, hleaves, ?_⟩, fun n => writeAll_const _ _ _, rfl, rfl, rfl, rfl, rfl, rfl,
        rfl, rfl⟩
      funext q
      by_cases hq : q = pi
      · rw [hq, update_self]
        exact hv
      · rw [update_of_ne hq]
        exact hother q hq

end Apply

/-! ## Confirming a batch -/

section Confirm

variable {perm : State → State} {s s' : StateSyncState} {pi : Bytes32} {r root : HashOut}

/-- Where a batch goes when `pi` is confirmed. -/
inductive Promotes (pi : Bytes32) (s s' : StateSyncState) : Prop
  | moved (kind : BatchKind) (known : (s.pendingBatches kind pi).isSome)
      (first : kind = .bridgeTx → s.pendingBatches .transaction pi = none)
      (pending : s'.pendingBatches =
        update s.pendingBatches kind (update (s.pendingBatches kind) pi none))
      (confirmed : s'.confirmedBatches =
        update s.confirmedBatches kind (update (s.confirmedBatches kind) pi true))
  | unknown (none : ∀ kind, s.pendingBatches kind pi = none)
      (pending : s'.pendingBatches = s.pendingBatches)
      (confirmed : s'.confirmedBatches = s.confirmedBatches)

/-- What confirming `pi` with the batch root `r` changes. -/
structure Confirms (perm : State → State) (pi : Bytes32) (r : HashOut) (s s' : StateSyncState) :
    Prop where
  leafIndex : ∃ i, s.stateTree.insert (hashOutput perm) r = .ok (s'.stateTree, i) ∧
    s'.batchRootToLeafIndex = update s.batchRootToLeafIndex (hashToBytes32 r) (some i)
  subtrees : (s.pendingBatchLeaves pi = none ∧
      s'.confirmedBatchSubtrees = s.confirmedBatchSubtrees) ∨
    ∃ v t, s.pendingBatchLeaves pi = some v ∧
      MerkleTree.insertAll (hashOutput perm) BATCH_SUBTREE_DEPTH v.toList = .ok t ∧
      s'.confirmedBatchSubtrees = update s.confirmedBatchSubtrees pi (some t)
  leaves : s'.pendingBatchLeaves = update s.pendingBatchLeaves pi none
  roots : s'.piToBatchRoot = update s.piToBatchRoot pi (some r)
  locations : ∀ c, s'.commitmentToBatch c = (s.commitmentToBatch c).map fun loc =>
    if loc.piCommitment = pi then { loc with confirmed := true } else loc
  pendingNullifiers : ∀ n, s'.pendingNullifiers n =
    if s.pendingNullifiers n = some pi then none else s.pendingNullifiers n
  confirmedNullifiers : ∀ n, s'.confirmedNullifiers n = true ↔
    s.confirmedNullifiers n = true ∨ s.pendingNullifiers n = some pi
  batches : Promotes pi s s'
  lastSyncedBlock : s'.lastSyncedBlock = s.lastSyncedBlock

theorem mapError_eq_ok {ε ε' α : Type} {x : Except ε α} {f : ε → ε'} {a : α} :
    x.mapError f = .ok a ↔ x = .ok a := by
  cases x with
  | error e => simp [Except.mapError]
  | ok b => simp [Except.mapError]

theorem buildSubtree_ok (h : s.buildSubtree perm pi = .ok s') :
    ∃ subtrees, s' = { s with
        pendingBatchLeaves := update s.pendingBatchLeaves pi none
        confirmedBatchSubtrees := subtrees } ∧
      ((s.pendingBatchLeaves pi = none ∧ subtrees = s.confirmedBatchSubtrees) ∨
        ∃ v t, s.pendingBatchLeaves pi = some v ∧
          MerkleTree.insertAll (hashOutput perm) BATCH_SUBTREE_DEPTH v.toList = .ok t ∧
          subtrees = update s.confirmedBatchSubtrees pi (some t)) := by
  unfold StateSyncState.buildSubtree at h
  split at h
  · rename_i hnone
    cases h
    refine ⟨s.confirmedBatchSubtrees, ?_, .inl ⟨hnone, rfl⟩⟩
    rw [← hnone, update_eq_self]
  · rename_i v hv
    obtain ⟨t, ht, h⟩ := bind_eq_ok.mp h
    obtain ⟨_, -, h⟩ := bind_eq_ok.mp h
    cases h
    exact ⟨_, rfl, .inr ⟨v, t, hv, mapError_eq_ok.mp ht, rfl⟩⟩

/-- Only the maps of batches are touched. -/
theorem promoteBatch_spec (s : StateSyncState) (pi : Bytes32) :
    ∃ pending confirmed, s.promoteBatch pi =
        { s with
          pendingBatches := pending
          confirmedBatches := confirmed } ∧
      ∀ s₀ s' : StateSyncState, s₀.pendingBatches = s.pendingBatches →
        s₀.confirmedBatches = s.confirmedBatches → s'.pendingBatches = pending →
        s'.confirmedBatches = confirmed → Promotes pi s₀ s' := by
  unfold StateSyncState.promoteBatch
  split
  · rename_i htx
    refine ⟨_, _, rfl, ?_⟩
    intro s₀ s' hp hc hp' hc'
    refine .moved .transaction (by rw [hp]; exact htx) (fun h => by cases h) ?_ ?_
    · rw [hp', hp]
    · rw [hc', hc]
  · rename_i htx
    have hnone : s.pendingBatches .transaction pi = none := Option.not_isSome_iff_eq_none.mp htx
    split
    · rename_i hbridge
      refine ⟨_, _, rfl, ?_⟩
      intro s₀ s' hp hc hp' hc'
      refine .moved .bridgeTx (by rw [hp]; exact hbridge) (fun _ => by rw [hp]; exact hnone) ?_ ?_
      · rw [hp', hp]
      · rw [hc', hc]
    · rename_i hbridge
      refine ⟨_, _, rfl, ?_⟩
      intro s₀ s' hp hc hp' hc'
      refine .unknown (fun kind => ?_) (by rw [hp', hp]) (by rw [hc', hc])
      rw [hp]
      cases kind with
      | transaction => exact hnone
      | bridgeTx => exact Option.not_isSome_iff_eq_none.mp hbridge

theorem confirms_of_confirmBatch (h : s.confirmBatch perm pi r root = .ok s') :
    Confirms perm pi r s s' := by
  obtain ⟨⟨s₁, i⟩, hinsert, h⟩ := bind_eq_ok.mp h
  obtain ⟨⟨t, j⟩, ht, hs₁⟩ := bind_eq_ok.mp hinsert
  cases hs₁
  obtain ⟨_, -, h⟩ := bind_eq_ok.mp h
  obtain ⟨s₂, hbuild, h⟩ := bind_eq_ok.mp h
  obtain ⟨subtrees, rfl, hsubtrees⟩ := buildSubtree_ok hbuild
  cases h
  obtain ⟨pending, confirmed, hpromote, hbatches⟩ := promoteBatch_spec
    (StateSyncState.markCommitments { s with
      stateTree := t
      batchRootToLeafIndex := update s.batchRootToLeafIndex (hashToBytes32 r) (some i)
      pendingBatchLeaves := update s.pendingBatchLeaves pi none
      confirmedBatchSubtrees := subtrees
      piToBatchRoot := update s.piToBatchRoot pi (some r) } pi) pi
  rw [hpromote]
  refine ⟨⟨i, mapError_eq_ok.mp ht, rfl⟩, hsubtrees, rfl, rfl, fun c => rfl, fun n => rfl,
    fun n => ?_, hbatches _ _ rfl rfl rfl rfl, rfl⟩
  show (_ || decide _) = true ↔ _
  rw [Bool.or_eq_true, decide_eq_true_iff]
  rfl

variable (perm) in
/-- A pending batch has a subtree: its 512 leaves fit. -/
theorem buildSubtree_isOk (s : StateSyncState) (pi : Bytes32) :
    ∃ s', s.buildSubtree perm pi = .ok s' := by
  unfold StateSyncState.buildSubtree
  split
  · exact ⟨_, rfl⟩
  · rename_i v _
    have hlength : v.toList.length ≤ 2 ^ BATCH_SUBTREE_DEPTH := by
      rw [Vector.length_toList]
      exact le_rfl
    obtain ⟨t, ht, hrep⟩ := insertAll_represents (hashOutput_lawful perm) (by decide) hlength
    rw [ht]
    have hroot := root_represents hrep (by decide) hlength
    simp only [Except.mapError, bind, Except.bind, hroot]
    exact ⟨_, rfl⟩

/-- Only a full tree refuses a confirmation. -/
theorem confirmBatch_isOk {depth : ℕ} {ds : List HashOut} (hdepth : 0 < depth)
    (hrep : Represents (hashOutput perm) depth ds s.stateTree) (hroom : ds.length < 2 ^ depth)
    (pi : Bytes32) (r root : HashOut) :
    ∃ s', s.confirmBatch perm pi r root = .ok s' := by
  obtain ⟨t, hinsert, hrep'⟩ := insert_represents (hashOutput_lawful perm) hrep hroom r
  have hlength : (ds ++ [r]).length ≤ 2 ^ depth := by
    rw [List.length_append, List.length_singleton]
    exact hroom
  have hroot := root_represents hrep' hdepth hlength
  unfold StateSyncState.confirmBatch StateSyncState.insertStateTreeLeaf
  simp only [hinsert, Except.mapError, bind, Except.bind, pure, Except.pure, hroot]
  split
  · rename_i e he
    obtain ⟨s', hs'⟩ := buildSubtree_isOk perm { s with
      stateTree := t
      batchRootToLeafIndex :=
        update s.batchRootToLeafIndex (hashToBytes32 r) (some ds.length) } pi
    rw [hs'] at he
    cases he
  · exact ⟨_, rfl⟩

/-- The tree of a confirmation. -/
theorem Confirms.represents {depth : ℕ} {ds : List HashOut} (h : Confirms perm pi r s s')
    (hrep : Represents (hashOutput perm) depth ds s.stateTree) :
    ds.length < 2 ^ depth ∧ Represents (hashOutput perm) depth (ds ++ [r]) s'.stateTree ∧
      s'.batchRootToLeafIndex =
        update s.batchRootToLeafIndex (hashToBytes32 r) (some ds.length) := by
  obtain ⟨i, hinsert, hindex⟩ := h.leafIndex
  have hroom : ds.length < 2 ^ depth := by
    by_contra hfull
    unfold MerkleTree.insert MerkleTree.numLeaves MerkleTree.depth at hinsert
    rw [hrep.leaves, hrep.depth_eq, Nat.one_shiftLeft, if_pos (Nat.le_of_not_lt hfull)] at hinsert
    cases hinsert
  obtain ⟨t, ht, hrep'⟩ := insert_represents (hashOutput_lawful perm) hrep hroom r
  rw [ht] at hinsert
  cases hinsert
  exact ⟨hroom, hrep', hindex⟩

theorem new_isOk (perm : State → State) {depth : ℕ} (hdepth : 0 < depth) :
    ∃ s, StateSyncState.new perm depth = .ok s := by
  obtain ⟨t, ht, hrep⟩ := new_represents (hashOutput perm) hdepth
  have hroot := root_represents hrep hdepth (Nat.zero_le _)
  unfold StateSyncState.new
  simp only [ht, Except.mapError, bind, Except.bind, hroot]
  exact ⟨_, rfl⟩

/-- A tree of depth zero has no root. -/
theorem new_represented {depth : ℕ} (h : StateSyncState.new perm depth = .ok s) :
    0 < depth ∧ Represents (hashOutput perm) depth [] s.stateTree := by
  obtain ⟨t, ht, h⟩ := bind_eq_ok.mp h
  obtain ⟨root, hroot, h⟩ := bind_eq_ok.mp h
  cases h
  have ht := mapError_eq_ok.mp ht
  have hdepth : 0 < depth := by
    rcases Nat.eq_zero_or_pos depth with rfl | hdepth
    · cases ht
      cases hroot
    · exact hdepth
  obtain ⟨t', ht', hrep⟩ := new_represents (hashOutput perm) hdepth
  rw [ht] at ht'
  cases ht'
  exact ⟨hdepth, hrep⟩

end Confirm

/-! ## Runs -/

/-- The calls that change the indexed batches, as `poll_sync` makes them. -/
inductive Op
  | apply (kind : BatchKind) (preimage : List (BitVec 8)) (piCommitment : Bytes32)
  | confirm (piCommitment : Bytes32) (batchRoot newTreeRoot : HashOut)

def step (perm : State → State) : Op → StateSyncState → Except SyncError StateSyncState
  | .apply kind preimage pi, s => applyPreimage kind preimage pi s
  | .confirm pi batchRoot newTreeRoot, s => s.confirmBatch perm pi batchRoot newTreeRoot

inductive Entry
  | applied (piCommitment : Bytes32) (batch : ParsedBatch)
  | confirmed (piCommitment : Bytes32)

/-- The entry of a successful operation. -/
def record : Op → List Entry
  | .apply kind preimage pi => ((parsed kind preimage).map (Entry.applied pi)).toList
  | .confirm pi _ _ => [.confirmed pi]

/-- An operation applies a batch or confirms one. -/
theorem step_cases {perm : State → State} {op : Op} {s s' : StateSyncState}
    (h : step perm op s = .ok s') :
    (∃ kind preimage pi b, op = .apply kind preimage pi ∧ parsed kind preimage = some b ∧
      record op = [.applied pi b] ∧ Applies kind preimage pi b s s') ∨
    ∃ pi r root, op = .confirm pi r root ∧ record op = [.confirmed pi] ∧
      Confirms perm pi r s s' := by
  cases op with
  | apply kind preimage pi =>
    obtain ⟨b, hb, happlies⟩ := applies_of_applyPreimage h
    refine .inl ⟨kind, preimage, pi, b, rfl, hb, ?_, happlies⟩
    rw [record, hb]
    rfl
  | confirm pi r root => exact .inr ⟨pi, r, root, rfl, rfl, confirms_of_confirmBatch h⟩

theorem applyPreimage_isOk {kind : BatchKind} {preimage : List (BitVec 8)} {b : ParsedBatch}
    (h : parsed kind preimage = some b) (pi : Bytes32) (s : StateSyncState) :
    ∃ s', applyPreimage kind preimage pi s = .ok s' := by
  unfold parsed at h
  unfold applyPreimage
  split at h
  · cases h
  · rename_i hlength
    rw [if_neg hlength, h]
    exact ⟨_, rfl⟩

/-! ## A batch of equal transactions -/

section Repeated

open Circuit Server

/-- The preimage of a batch with the transaction `t` in every slot. -/
def repeatedTx (root : HashOut) (t : TxCircuitPublicTargets) : List (BitVec 8) :=
  preimageBytes root (List.replicate 64 t.register)

/-- What state-sync reads of it. -/
def repeatedBatch (t : TxCircuitPublicTargets) : ParsedBatch :=
  txEntries (List.replicate 64 t.register)

variable {t : TxCircuitPublicTargets}

theorem repeatedTx_isTxBatch (t : TxCircuitPublicTargets) :
    IsTxBatch (List.replicate 64 t.register) where
  length_eq := List.length_replicate
  pis_length := by
    intro p hp
    rw [List.eq_of_mem_replicate hp]
    exact t.register_length
  uniform := by
    intro p hp q hq
    rw [List.eq_of_mem_replicate hp, List.eq_of_mem_replicate hq]

theorem parsed_repeatedTx (root : HashOut) (t : TxCircuitPublicTargets) :
    parsed .transaction (repeatedTx root t) = some (repeatedBatch t) := by
  have hbatch := repeatedTx_isTxBatch t
  have hlength : ¬ (repeatedTx root t).length < TX_PREIMAGE_LEN :=
    Nat.not_lt_of_le (tx_length hbatch).ge
  unfold parsed preimageLen parsePreimage
  rw [if_neg hlength]
  exact parse_tx hbatch

theorem first_fromPis : TxCircuitPublicTargets.fromPis
    (slotPis (List.replicate 64 t.register) 0) = t :=
  (congrArg TxCircuitPublicTargets.fromPis rfl).trans t.fromPis_register

/-- The account of the first slot. -/
theorem accinNull_mem (hreal : t.notFakeTx ≠ 0) :
    t.accinNull ∈ (repeatedBatch t).nullifiers := by
  refine List.mem_flatMap.mpr ⟨0, List.mem_filter.mpr ⟨by decide, ?_⟩, ?_⟩
  · rw [first_fromPis]
    exact decide_eq_true hreal
  · rw [first_fromPis]
    exact List.mem_cons_self

theorem accoutComm_mem : t.accoutComm ∈ (repeatedBatch t).leaves := by
  refine List.mem_map.mpr ⟨(t.accoutComm, 0), List.mem_flatMap.mpr ⟨0, by decide, ?_⟩, rfl⟩
  rw [first_fromPis]
  exact List.mem_cons_self

/-- A transaction of an account with the given nullifier and output commitment, without notes. -/
def sampleTx (accinNull accoutComm : HashOut) : TxCircuitPublicTargets where
  stateRoot := 0
  mainpoolConfigRoot := 0
  notFakeTx := 1
  accinNull := accinNull
  accoutComm := accoutComm
  inotesNull := fun _ => 0
  onotesComm := fun _ => 0

end Repeated

end Doxa.StateSync
