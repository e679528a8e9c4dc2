import Doxa.StateSync.Steps

/-!
# Inclusion of commitments

A commitment that is reported Confirmed comes with two paths: from the commitment to the root
of its batch, and from that root to the root of the state tree. `SyncInv` is what every run
keeps; it lets the two paths be built for every commitment marked confirmed. `GenuineInv` is
what holds when every `pi_commitment` stands for one list of leaves and is confirmed with the
Poseidon root of that list; then the paths are valid, and joined they are a path of the circuit
(`ValidInclusion`).

A mark is taken back only by a later batch that has the commitment again.
-/

namespace Doxa.StateSync

open Lib Trees Contract Circuit Function

/-! ## Joined paths -/

/-- `set_merkle_path_witness`: the targets of a path with the given siblings and bits. -/
def pathTarget (depth : ℕ) (siblings : List HashOut) (bits : List Bool) :
    MerkleRootTarget depth where
  siblings := fun i => siblings.getD i.val 0
  bits := fun i => if bits.getD i.val false then 1 else 0

/-- The path through the batch subtree, then through the state tree. -/
def joinedTarget (depth : ℕ) (sub st : MerkleProof HashOut) :
    MerkleRootTarget (BATCH_SUBTREE_DEPTH + depth) :=
  pathTarget _ (sub.siblings ++ st.siblings) (sub.path ++ st.path)

section Joined

variable {perm : State → State} {depth : ℕ}

theorem pathTarget_satisfied (siblings : List HashOut) (bits : List Bool) :
    (pathTarget depth siblings bits).Satisfied := by
  intro i
  apply isBool_iff.mpr
  show (if bits.getD i.val false then (1 : F) else 0) = 0 ∨ _
  cases hbit : bits.getD i.val false with
  | true => exact .inr (if_pos hbit)
  | false => exact .inl rfl

theorem pathTarget_bit (siblings : List HashOut) (bits : List Bool) (k : Fin depth) :
    decide ((pathTarget depth siblings bits).bits k = 1) = bits.getD k.val false := by
  show decide ((if bits.getD k.val false then (1 : F) else 0) = 1) = _
  cases bits.getD k.val false with
  | true => exact decide_eq_true rfl
  | false => exact decide_eq_false zero_ne_one

/-- The entries of two lists over ranges, one after the other. -/
theorem getD_map_range_append {α : Type*} (f g : ℕ → α) (d : α) {m n k : ℕ} (hk : k < m + n) :
    ((List.range m).map f ++ (List.range n).map g).getD k d =
      if k < m then f k else g (k - m) := by
  split
  · rename_i hlow
    rw [List.getD_append _ _ _ _ (by simpa using hlow)]
    simp [hlow]
  · rename_i hhigh
    have hrest : k - m < n := by omega
    rw [List.getD_append_right _ _ _ _ (by simpa using hhigh)]
    simp [hrest]

variable (perm) in
theorem node_eq_nodeHash : (hashOutput perm).node = nodeHash perm :=
  funext fun l => funext fun r => (nodeHash_eq perm l r).symm

variable {l ds : List HashOut} {i j : ℕ}

theorem joinedTarget_position (hj : j < 2 ^ BATCH_SUBTREE_DEPTH) (hi : i < 2 ^ depth) :
    (joinedTarget depth (proofOf (hashOutput perm) BATCH_SUBTREE_DEPTH l j)
      (proofOf (hashOutput perm) depth ds i)).position = i * 2 ^ BATCH_SUBTREE_DEPTH + j := by
  apply Nat.eq_of_testBit_eq
  intro k
  rw [Nat.mul_comm, Nat.testBit_two_pow_mul_add i hj]
  unfold MerkleRootTarget.position
  by_cases hk : k < BATCH_SUBTREE_DEPTH + depth
  · rw [Nat.testBit_ofBits_lt _ k hk]
    refine (pathTarget_bit _ _ ⟨k, hk⟩).trans ?_
    exact getD_map_range_append _ _ _ hk
  · rw [Nat.testBit_ofBits_ge _ k (Nat.le_of_not_lt hk), if_neg (by omega)]
    refine (Nat.testBit_lt_two_pow (hi.trans_le ?_)).symm
    exact Nat.pow_le_pow_right (by decide) (by omega)

/-- A path of two parts climbs through the first, then through the second. -/
theorem root_of_parts {m n : ℕ} {t : MerkleRootTarget (m + n)} (ht : t.Satisfied)
    {low high : ℕ → HashOut} (hposition : t.position = i * 2 ^ m + j) (hj : j < 2 ^ m)
    (hlow : ∀ k < m, t.sibling k = low k) (hhigh : ∀ k < n, t.sibling (m + k) = high k)
    (x : HashOut) : t.root perm x = climb (nodeHash perm) high i.testBit
      (climb (nodeHash perm) low j.testBit x m) n := by
  have hbit : ∀ k, (i * 2 ^ m + j).testBit k =
      if k < m then j.testBit k else i.testBit (k - m) := by
    intro k
    rw [Nat.mul_comm, Nat.testBit_two_pow_mul_add i hj]
  have hfirst : climb (nodeHash perm) t.sibling (i * 2 ^ m + j).testBit x m =
      climb (nodeHash perm) low j.testBit x m :=
    climb_congr hlow fun k hk => by rw [hbit, if_pos hk]
  rw [MerkleRootTarget.root_eq_climb ht, hposition, climb_add, hfirst]
  refine climb_congr hhigh fun k _ => ?_
  rw [hbit, if_neg (Nat.not_lt_of_le (Nat.le_add_right m k)), Nat.add_sub_cancel_left]

/-- The joined path climbs from a leaf of the subtree to the root of the state tree. -/
theorem joinedTarget_root (hj : j < 2 ^ BATCH_SUBTREE_DEPTH) (hi : i < 2 ^ depth)
    (hjoint : (hashOutput perm).leafOf ds i =
      Lib.node (hashOutput perm).node ((hashOutput perm).leafOf l) BATCH_SUBTREE_DEPTH 0) :
    (joinedTarget depth (proofOf (hashOutput perm) BATCH_SUBTREE_DEPTH l j)
      (proofOf (hashOutput perm) depth ds i)).root perm ((hashOutput perm).leafOf l j) =
      Lib.node (hashOutput perm).node ((hashOutput perm).leafOf ds) depth 0 := by
  have hsibling : ∀ k < BATCH_SUBTREE_DEPTH + depth,
      (joinedTarget depth (proofOf (hashOutput perm) BATCH_SUBTREE_DEPTH l j)
        (proofOf (hashOutput perm) depth ds i)).sibling k =
      if k < BATCH_SUBTREE_DEPTH then
        siblingOf (hashOutput perm).node ((hashOutput perm).leafOf l) j k
      else siblingOf (hashOutput perm).node ((hashOutput perm).leafOf ds) i
        (k - BATCH_SUBTREE_DEPTH) := by
    intro k hk
    exact (dif_pos hk).trans (getD_map_range_append _ _ _ hk)
  refine (root_of_parts (pathTarget_satisfied _ _) (joinedTarget_position hj hi) hj
    (fun k hk => (hsibling k (by omega)).trans (if_pos hk))
    (fun k hk => (hsibling _ (by omega)).trans (if_neg (by omega))) _).trans ?_
  simp only [Nat.add_sub_cancel_left]
  rw [← node_eq_nodeHash, climb_tree, Nat.div_eq_of_lt hj, ← hjoint, climb_tree,
    Nat.div_eq_of_lt hi]

end Joined

/-! ## What every run keeps -/

/-- Digests with one key are equal. -/
theorem hashToBytes32_injective : Injective hashToBytes32 := by
  intro a b hab
  have hdigit : ∀ h : HashOut, ∀ i < 4, (if hi : i < 4 then (h ⟨i, hi⟩).val else 0) < 2 ^ 64 := by
    intro h i hi
    rw [dif_pos hi]
    exact (ZMod.val_lt _).trans (by decide)
  have htoNat : ∀ h : HashOut, (hashToBytes32 h).toNat =
      bigEndian 64 (fun i => if hi : i < 4 then (h ⟨i, hi⟩).val else 0) 4 := by
    intro h
    rw [hashToBytes32, BitVec.toNat_ofNat]
    exact Nat.mod_eq_of_lt (bigEndian_lt (hdigit h))
  funext i
  have ha := bigEndian_digit (hdigit a) i.isLt
  have hb := bigEndian_digit (hdigit b) i.isLt
  rw [← htoNat, hab, htoNat, hb, dif_pos i.isLt, dif_pos i.isLt] at ha
  exact ZMod.val_injective _ ha.symm

section Inv

variable {perm : State → State} {depth : ℕ} {s s' : StateSyncState} {kind : BatchKind}
  {preimage : List (BitVec 8)} {pi : Bytes32} {b : ParsedBatch} {c r : HashOut}

structure SyncInv (perm : State → State) (depth : ℕ) (s : StateSyncState) : Prop where
  tree : Represents (hashOutput perm) depth s.stateTree.leaves s.stateTree
  fits : s.stateTree.leaves.length ≤ 2 ^ depth
  /-- The index of a root is a position of it. -/
  leafIndex : ∀ r i, s.batchRootToLeafIndex (hashToBytes32 r) = some i →
    s.stateTree.leaves[i]? = some r
  roots : ∀ pi r, s.piToBatchRoot pi = some r →
    (s.batchRootToLeafIndex (hashToBytes32 r)).isSome
  subtrees : ∀ pi t, s.confirmedBatchSubtrees pi = some t → t.leaves.length = 512 ∧
    Represents (hashOutput perm) BATCH_SUBTREE_DEPTH t.leaves t
  /-- The leaves of a batch with a located commitment are known. -/
  located : ∀ c loc, s.commitmentToBatch c = some loc →
    (s.pendingBatchLeaves loc.piCommitment).isSome ∨
      (s.confirmedBatchSubtrees loc.piCommitment).isSome
  marked : ∀ c loc, s.commitmentToBatch c = some loc → loc.confirmed = true →
    (s.piToBatchRoot loc.piCommitment).isSome ∧
      (s.confirmedBatchSubtrees loc.piCommitment).isSome

theorem new_syncInv (h : StateSyncState.new perm depth = .ok s) : SyncInv perm depth s := by
  obtain ⟨-, hrep⟩ := new_represented h
  have hleaves : s.stateTree.leaves = [] := hrep.leaves
  obtain ⟨t, -, h⟩ := bind_eq_ok.mp h
  obtain ⟨root, -, h⟩ := bind_eq_ok.mp h
  cases h
  refine ⟨by rw [hleaves]; exact hrep, by rw [hleaves]; exact Nat.zero_le _, ?_, ?_, ?_, ?_, ?_⟩
  · intro r i hi
    cases hi
  · intro pi r hr
    cases hr
  · intro pi t ht
    cases ht
  · intro c loc hloc
    cases hloc
  · intro c loc hloc
    cases hloc

/-- The location of a commitment after a batch was applied. -/
theorem Applies.location (h : Applies kind preimage pi b s s') (c : HashOut) :
    (c ∈ b.leaves ∧ ∃ i, (c, i) ∈ b.commitments ∧
      s'.commitmentToBatch c = some ⟨pi, i, false⟩) ∨
    (c ∉ b.leaves ∧ s'.commitmentToBatch c = s.commitmentToBatch c) := by
  rw [h.locations]
  by_cases hc : c ∈ b.leaves
  · obtain ⟨x, hx, hxc⟩ := List.mem_map.mp hc
    have hwritten : ∃ y ∈ b.commitments, y.1 = c ∧
        writeAll Prod.fst (fun y => ⟨pi, y.2, false⟩) s.commitmentToBatch b.commitments c =
          some (⟨pi, y.2, false⟩ : CommitmentLocation) := writeAll_of_exists ⟨x, hx, hxc⟩
    obtain ⟨⟨y, i⟩, hy, rfl, hvalue⟩ := hwritten
    exact .inl ⟨hc, i, hy, hvalue⟩
  · refine .inr ⟨hc, writeAll_of_forall_ne fun x hx hxc => hc ?_⟩
    exact List.mem_map.mpr ⟨x, hx, hxc⟩

theorem Applies.syncInv (h : Applies kind preimage pi b s s') (hinv : SyncInv perm depth s) :
    SyncInv perm depth s' := by
  obtain ⟨v, -, hleaves⟩ := h.leaves
  have hpending : ∀ q, (s.pendingBatchLeaves q).isSome → (s'.pendingBatchLeaves q).isSome := by
    intro q hq
    rw [hleaves]
    by_cases hqpi : q = pi
    · rw [hqpi, update_self]
      rfl
    · rw [update_of_ne hqpi]
      exact hq
  refine ⟨?_, ?_, ?_, ?_, ?_, fun c loc hloc => ?_, fun c loc hloc hconfirmed => ?_⟩
  · rw [h.stateTree]
    exact hinv.tree
  · rw [h.stateTree]
    exact hinv.fits
  · rw [h.leafIndex, h.stateTree]
    exact hinv.leafIndex
  · rw [h.roots, h.leafIndex]
    exact hinv.roots
  · rw [h.subtrees]
    exact hinv.subtrees
  · rw [h.subtrees]
    rcases h.location c with ⟨-, i, -, hnew⟩ | ⟨-, hold⟩
    · obtain rfl := Option.some.inj (hnew.symm.trans hloc)
      left
      rw [hleaves, update_self]
      rfl
    · exact (hinv.located c loc (hold.symm.trans hloc)).imp_left (hpending _)
  · rw [h.subtrees, h.roots]
    rcases h.location c with ⟨-, i, -, hnew⟩ | ⟨-, hold⟩
    · obtain rfl := Option.some.inj (hnew.symm.trans hloc)
      cases hconfirmed
    · exact hinv.marked c loc (hold.symm.trans hloc) hconfirmed

/-- The subtree of a confirmed batch: the one built from its pending leaves, or the old one. -/
theorem Confirms.subtree (h : Confirms perm pi r s s') :
    (∀ q t, s'.confirmedBatchSubtrees q = some t →
      (s.confirmedBatchSubtrees q = some t) ∨ (q = pi ∧ ∃ v, s.pendingBatchLeaves pi = some v ∧
        t.leaves = v.toList ∧ Represents (hashOutput perm) BATCH_SUBTREE_DEPTH t.leaves t)) ∧
    (∀ q, (s.confirmedBatchSubtrees q).isSome ∨ (q = pi ∧ (s.pendingBatchLeaves pi).isSome) →
      (s'.confirmedBatchSubtrees q).isSome) := by
  rcases h.subtrees with ⟨hnone, hsame⟩ | ⟨v, t, hv, ht, hnew⟩
  · rw [hsame, hnone]
    refine ⟨fun q t ht => .inl ht, fun q hq => ?_⟩
    rcases hq with hq | ⟨-, hq⟩
    · exact hq
    · cases hq
  · have hlength : v.toList.length ≤ 2 ^ BATCH_SUBTREE_DEPTH := by
      rw [Vector.length_toList]
      exact le_rfl
    obtain ⟨t', ht', hrep⟩ := insertAll_represents (hashOutput_lawful perm) (by decide) hlength
    obtain rfl := Except.ok.inj (ht.symm.trans ht')
    rw [hnew]
    refine ⟨fun q u hu => ?_, fun q hq => ?_⟩
    · by_cases hqpi : q = pi
      · rw [hqpi, update_self] at hu
        obtain rfl := Option.some.inj hu
        refine .inr ⟨hqpi, v, hv, hrep.leaves, ?_⟩
        rw [hrep.leaves]
        exact hrep
      · rw [update_of_ne hqpi] at hu
        exact .inl hu
    · by_cases hqpi : q = pi
      · rw [hqpi, update_self]
        rfl
      · rw [update_of_ne hqpi]
        exact hq.resolve_right fun hq => hqpi hq.1

/-- The location of a commitment after a confirmation. -/
theorem Confirms.location (h : Confirms perm pi r s s') {loc : CommitmentLocation}
    (hloc : s'.commitmentToBatch c = some loc) :
    ∃ old, s.commitmentToBatch c = some old ∧ loc.piCommitment = old.piCommitment ∧
      loc.subtreeLeafIndex = old.subtreeLeafIndex ∧
      (loc.confirmed = true ↔ old.confirmed = true ∨ old.piCommitment = pi) := by
  rw [h.locations] at hloc
  obtain ⟨old, hold, rfl⟩ := Option.map_eq_some_iff.mp hloc
  refine ⟨old, hold, ?_⟩
  split
  · rename_i hpi
    exact ⟨rfl, rfl, fun _ => .inr hpi, fun _ => rfl⟩
  · rename_i hpi
    exact ⟨rfl, rfl, .inl, fun hconfirmed => hconfirmed.resolve_right hpi⟩

theorem Confirms.syncInv (h : Confirms perm pi r s s') (hinv : SyncInv perm depth s) :
    SyncInv perm depth s' := by
  obtain ⟨hroom, hrep, hindex⟩ := h.represents hinv.tree
  have hleaves : s'.stateTree.leaves = s.stateTree.leaves ++ [r] := hrep.leaves
  have hindexed : ∀ q, (s.batchRootToLeafIndex (hashToBytes32 q)).isSome →
      (s'.batchRootToLeafIndex (hashToBytes32 q)).isSome := by
    intro q hq
    rw [hindex]
    by_cases hqr : hashToBytes32 q = hashToBytes32 r
    · rw [hqr, update_self]
      rfl
    · rw [update_of_ne hqr]
      exact hq
  have hroots : ∀ q, (s.piToBatchRoot q).isSome ∨ q = pi → (s'.piToBatchRoot q).isSome := by
    intro q hq
    rw [h.roots]
    by_cases hqpi : q = pi
    · rw [hqpi, update_self]
      rfl
    · rw [update_of_ne hqpi]
      exact hq.resolve_right hqpi
  refine ⟨?_, ?_, fun q i hi => ?_, fun q x hx => ?_, fun q t ht => ?_, fun c loc hloc => ?_,
    fun c loc hloc hconfirmed => ?_⟩
  · rw [hleaves]
    exact hrep
  · rw [hleaves, List.length_append, List.length_singleton]
    exact hroom
  · rw [hindex] at hi
    rw [hleaves]
    by_cases hqr : hashToBytes32 q = hashToBytes32 r
    · rw [hqr, update_self] at hi
      obtain rfl := Option.some.inj hi
      rw [hashToBytes32_injective hqr]
      exact List.getElem?_concat_length
    · rw [update_of_ne hqr] at hi
      have hget := hinv.leafIndex q i hi
      rwa [List.getElem?_append_left (List.getElem?_eq_some_iff.mp hget).1]
  · rw [h.roots] at hx
    by_cases hqpi : q = pi
    · rw [hqpi, update_self] at hx
      obtain rfl := Option.some.inj hx
      rw [hindex, update_self]
      rfl
    · rw [update_of_ne hqpi] at hx
      exact hindexed x (hinv.roots q x hx)
  · rcases h.subtree.1 q t ht with hold | ⟨-, v, -, hv, hrep⟩
    · exact hinv.subtrees q t hold
    · refine ⟨?_, hrep⟩
      rw [hv, Vector.length_toList]
  · obtain ⟨old, hold, hpi, -, -⟩ := h.location hloc
    rw [hpi]
    by_cases hold' : old.piCommitment = pi
    · refine .inr (h.subtree.2 _ ?_)
      refine (hinv.located c old hold).symm.imp_right fun hpending => ⟨hold', ?_⟩
      rw [← hold']
      exact hpending
    · rw [h.leaves, update_of_ne hold']
      exact (hinv.located c old hold).imp_right fun hq => h.subtree.2 _ (.inl hq)
  · obtain ⟨old, hold, hpi, -, hiff⟩ := h.location hloc
    rw [hpi]
    rcases hiff.mp hconfirmed with hmark | hpi'
    · obtain ⟨hroot, hsubtree⟩ := hinv.marked c old hold hmark
      exact ⟨hroots _ (.inl hroot), h.subtree.2 _ (.inl hsubtree)⟩
    · refine ⟨hroots _ (.inr hpi'), h.subtree.2 _ ?_⟩
      refine (hinv.located c old hold).symm.imp_right fun hpending => ⟨hpi', ?_⟩
      rw [← hpi']
      exact hpending

theorem step_syncInv {op : Op} (hinv : SyncInv perm depth s) (h : step perm op s = .ok s') :
    SyncInv perm depth s' := by
  rcases step_cases h with ⟨_, _, _, _, -, -, -, happlies⟩ | ⟨_, _, _, -, -, hconfirms⟩
  · exact happlies.syncInv hinv
  · exact hconfirms.syncInv hinv

theorem syncInv_of_run (h : StateSyncState.new perm depth = .ok s) (ops : List Op) :
    SyncInv perm depth (run (step perm) s ops) :=
  run_inv ops (SyncInv perm depth) (new_syncInv h) fun _ _ _ _ hinv hstep =>
    step_syncInv hinv hstep

/-! ## Answers -/

/-- A commitment marked confirmed is answered with the two paths of its position. -/
theorem SyncInv.status_of_marked (hinv : SyncInv perm depth s) (hdepth : 0 < depth)
    {loc : CommitmentLocation} (hloc : s.commitmentToBatch c = some loc)
    (hmark : loc.confirmed = true) :
    ∃ t r i, s.confirmedBatchSubtrees loc.piCommitment = some t ∧
      s.piToBatchRoot loc.piCommitment = some r ∧
      s.batchRootToLeafIndex (hashToBytes32 r) = some i ∧
      s.getCommitmentStatus perm c = .confirmed
        (proofOf (hashOutput perm) BATCH_SUBTREE_DEPTH t.leaves loc.subtreeLeafIndex)
        (proofOf (hashOutput perm) depth s.stateTree.leaves i) := by
  obtain ⟨hroot, hsubtree⟩ := hinv.marked c loc hloc hmark
  obtain ⟨r, hr⟩ := Option.isSome_iff_exists.mp hroot
  obtain ⟨t, ht⟩ := Option.isSome_iff_exists.mp hsubtree
  obtain ⟨i, hi⟩ := Option.isSome_iff_exists.mp (hinv.roots _ _ hr)
  obtain ⟨hlength, hrep⟩ := hinv.subtrees _ _ ht
  have hsub := merkleProof_represents hrep (by decide) (by rw [hlength]; decide)
    loc.subtreeLeafIndex
  have hst := merkleProof_represents hinv.tree hdepth hinv.fits i
  refine ⟨t, r, i, ht, hr, hi, ?_⟩
  simp only [StateSyncState.getCommitmentStatus, hloc, hmark, StateSyncState.confirmedPaths,
    StateSyncState.getBatchRootForCommitment, StateSyncState.getBatchSubtreeProof, hr, ht, hi,
    hsub, hst, Except.toOption, Option.bind_eq_bind, Option.bind_some, Option.pure_def,
    if_true]

/-- Only such a commitment is reported Confirmed. -/
theorem marked_of_status {sub st : MerkleProof HashOut}
    (h : s.getCommitmentStatus perm c = .confirmed sub st) :
    ∃ loc, s.commitmentToBatch c = some loc ∧ loc.confirmed = true := by
  unfold StateSyncState.getCommitmentStatus at h
  split at h
  · cases h
  · rename_i loc hloc
    split at h
    · rename_i hmark
      exact ⟨loc, hloc, hmark⟩
    · cases h

end Inv

/-! ## Genuine batches -/

/-- The root of the subtree with the given leaves. -/
def subtreeRoot (perm : State → State) (leaves : List HashOut) : HashOut :=
  Lib.node (hashOutput perm).node ((hashOutput perm).leafOf leaves) BATCH_SUBTREE_DEPTH 0

/-- Batches as the chain has them: a `pi_commitment` stands for one list of leaves, and the
batch root it is confirmed with is the Poseidon root of these. -/
structure Genuine (perm : State → State) (leavesOf : Bytes32 → List HashOut) (ops : List Op) :
    Prop where
  applied : ∀ kind preimage pi b, .apply kind preimage pi ∈ ops →
    parsed kind preimage = some b → b.leaves = leavesOf pi
  confirmed : ∀ pi r root, .confirm pi r root ∈ ops → r = subtreeRoot perm (leavesOf pi)

structure GenuineInv (perm : State → State) (leavesOf : Bytes32 → List HashOut)
    (s : StateSyncState) : Prop where
  pending : ∀ pi v, s.pendingBatchLeaves pi = some v → v.toList = leavesOf pi
  subtrees : ∀ pi t, s.confirmedBatchSubtrees pi = some t → t.leaves = leavesOf pi
  roots : ∀ pi r, s.piToBatchRoot pi = some r → r = subtreeRoot perm (leavesOf pi)
  located : ∀ c loc, s.commitmentToBatch c = some loc →
    (leavesOf loc.piCommitment)[loc.subtreeLeafIndex]? = some c

section Genuine

variable {perm : State → State} {depth : ℕ} {leavesOf : Bytes32 → List HashOut}
  {s s' : StateSyncState} {kind : BatchKind} {preimage : List (BitVec 8)} {pi : Bytes32}
  {b : ParsedBatch} {c r : HashOut}

theorem new_genuineInv (h : StateSyncState.new perm depth = .ok s) :
    GenuineInv perm leavesOf s := by
  obtain ⟨t, -, h⟩ := bind_eq_ok.mp h
  obtain ⟨root, -, h⟩ := bind_eq_ok.mp h
  cases h
  refine ⟨?_, ?_, ?_, ?_⟩
  · intro pi v hv
    cases hv
  · intro pi t ht
    cases ht
  · intro pi r hr
    cases hr
  · intro c loc hloc
    cases hloc

/-- A commitment stands at its position. -/
theorem leaves_getElem? (hparsed : parsed kind preimage = some b) {i : ℕ}
    (h : (c, i) ∈ b.commitments) : b.leaves[i]? = some c := by
  have hpositions : b.commitments.map Prod.snd = List.range 512 := by
    unfold parsed at hparsed
    split at hparsed
    · cases hparsed
    · exact parsePreimage_positions hparsed
  obtain ⟨k, hk⟩ := List.mem_iff_getElem?.mp h
  have hik : (List.range 512)[k]? = some i := by
    rw [← hpositions, List.getElem?_map, hk]
    rfl
  obtain ⟨hlt, rfl⟩ := List.getElem?_eq_some_iff.mp hik
  rw [List.getElem_range, ParsedBatch.leaves, List.getElem?_map, hk]
  rfl

theorem Applies.genuineInv (h : Applies kind preimage pi b s s')
    (hparsed : parsed kind preimage = some b) (hleaves : b.leaves = leavesOf pi)
    (hinv : GenuineInv perm leavesOf s) : GenuineInv perm leavesOf s' := by
  obtain ⟨v, hv, hpending⟩ := h.leaves
  refine ⟨fun q w hw => ?_, ?_, ?_, fun c loc hloc => ?_⟩
  · rw [hpending] at hw
    by_cases hq : q = pi
    · rw [hq, update_self] at hw
      obtain rfl := Option.some.inj hw
      rw [hq, hv, hleaves]
    · rw [update_of_ne hq] at hw
      exact hinv.pending q w hw
  · rw [h.subtrees]
    exact hinv.subtrees
  · rw [h.roots]
    exact hinv.roots
  · rcases h.location c with ⟨-, i, hi, hnew⟩ | ⟨-, hold⟩
    · obtain rfl := Option.some.inj (hnew.symm.trans hloc)
      show (leavesOf pi)[i]? = some c
      rw [← hleaves]
      exact leaves_getElem? hparsed hi
    · exact hinv.located c loc (hold.symm.trans hloc)

theorem Confirms.genuineInv (h : Confirms perm pi r s s')
    (hroot : r = subtreeRoot perm (leavesOf pi)) (hinv : GenuineInv perm leavesOf s) :
    GenuineInv perm leavesOf s' := by
  refine ⟨fun q v hv => ?_, fun q t ht => ?_, fun q x hx => ?_, fun c loc hloc => ?_⟩
  · rw [h.leaves] at hv
    by_cases hq : q = pi
    · rw [hq, update_self] at hv
      cases hv
    · rw [update_of_ne hq] at hv
      exact hinv.pending q v hv
  · rcases h.subtree.1 q t ht with hold | ⟨rfl, v, hv, hleaves, -⟩
    · exact hinv.subtrees q t hold
    · rw [hleaves, hinv.pending q v hv]
  · rw [h.roots] at hx
    by_cases hq : q = pi
    · rw [hq, update_self] at hx
      rw [hq, ← hroot]
      exact (Option.some.inj hx).symm
    · rw [update_of_ne hq] at hx
      exact hinv.roots q x hx
  · obtain ⟨old, hold, hpi, hindex, -⟩ := h.location hloc
    rw [hpi, hindex]
    exact hinv.located c old hold

theorem genuineInv_of_run (h : StateSyncState.new perm depth = .ok s) {ops : List Op}
    (hgenuine : Genuine perm leavesOf ops) :
    GenuineInv perm leavesOf (run (step perm) s ops) := by
  refine run_inv ops (GenuineInv perm leavesOf) (new_genuineInv h) fun op hop t t' hinv hstep => ?_
  rcases step_cases hstep with
    ⟨kind, preimage, pi, b, rfl, hb, -, happlies⟩ | ⟨pi, r, root, rfl, -, hconfirms⟩
  · exact happlies.genuineInv hb (hgenuine.applied kind preimage pi b hop hb) hinv
  · exact hconfirms.genuineInv (hgenuine.confirmed pi r root hop) hinv

/-- The two paths of an answer prove that the commitment is in the state tree. -/
structure ValidInclusion (perm : State → State) (depth : ℕ) (s : StateSyncState) (c : HashOut)
    (sub st : MerkleProof HashOut) : Prop where
  leaf : sub.leaf = c
  subtree : sub.verify (hashOutput perm) = true
  joint : sub.root = st.leaf
  stateTree : st.verify (hashOutput perm) = true
  root : s.stateTree.root (hashOutput perm) = .ok st.root
  siblings_length : (sub.siblings ++ st.siblings).length = BATCH_SUBTREE_DEPTH + depth
  path_length : (sub.path ++ st.path).length = BATCH_SUBTREE_DEPTH + depth
  circuit : (joinedTarget depth sub st).ConditionalVerify perm c st.root 1
  position : (joinedTarget depth sub st).position = st.pos * 2 ^ BATCH_SUBTREE_DEPTH + sub.pos
  slot : ∃ pi confirmed, s.commitmentToBatch c = some ⟨pi, sub.pos, confirmed⟩
  leafIndex : s.batchRootToLeafIndex (hashToBytes32 sub.root) = some st.pos

/-- In a state with genuine batches every Confirmed answer is valid. -/
theorem GenuineInv.validInclusion (hgenuine : GenuineInv perm leavesOf s)
    (hinv : SyncInv perm depth s) (hdepth : 0 < depth) {sub st : MerkleProof HashOut}
    (h : s.getCommitmentStatus perm c = .confirmed sub st) :
    ValidInclusion perm depth s c sub st := by
  obtain ⟨loc, hloc, hmark⟩ := marked_of_status h
  obtain ⟨t, r, i, ht, hr, hi, hstatus⟩ := hinv.status_of_marked hdepth hloc hmark
  rw [hstatus] at h
  cases h
  obtain ⟨hlength, -⟩ := hinv.subtrees _ _ ht
  have hc : t.leaves[loc.subtreeLeafIndex]? = some c := by
    rw [hgenuine.subtrees _ _ ht]
    exact hgenuine.located c loc hloc
  have hj : loc.subtreeLeafIndex < 2 ^ BATCH_SUBTREE_DEPTH :=
    (List.getElem?_eq_some_iff.mp hc).1.trans_eq hlength
  have hleaf : (hashOutput perm).leafOf t.leaves loc.subtreeLeafIndex = c := by
    rw [MerkleHash.leafOf, List.getD_eq_getElem?_getD, hc]
    rfl
  have hget := hinv.leafIndex r i hi
  have hi' : i < 2 ^ depth := (List.getElem?_eq_some_iff.mp hget).1.trans_le hinv.fits
  have hrleaf : (hashOutput perm).leafOf s.stateTree.leaves i = r := by
    rw [MerkleHash.leafOf, List.getD_eq_getElem?_getD, hget]
    rfl
  have hroot : r = subtreeRoot perm t.leaves := by
    rw [hgenuine.subtrees _ _ ht]
    exact hgenuine.roots _ r hr
  have hjoint := hrleaf.trans hroot
  refine ⟨hleaf, proofOf_verify (hashOutput_lawful perm) hj, hjoint.symm,
    proofOf_verify (hashOutput_lawful perm) hi', root_represents hinv.tree hdepth hinv.fits,
    ?_, ?_, ⟨pathTarget_satisfied _ _, condHashEq_one.mpr ?_⟩, joinedTarget_position hj hi',
    ⟨loc.piCommitment, loc.confirmed, hloc⟩, ?_⟩
  · simp [proofOf]
  · simp [proofOf]
  · have hclimb := joinedTarget_root hj hi' hjoint
    rw [hleaf] at hclimb
    exact hclimb
  · rw [hroot] at hi
    exact hi

end Genuine

/-- After any sequence of genuine batches, in any order and with any repetitions, every
commitment reported Confirmed comes with a valid proof of inclusion. -/
theorem confirmed_inclusion_valid {perm : State → State} {depth : ℕ} {s : StateSyncState}
    (h : StateSyncState.new perm depth = .ok s) {leavesOf : Bytes32 → List HashOut}
    {ops : List Op} (hgenuine : Genuine perm leavesOf ops) (c : HashOut)
    (sub st : MerkleProof HashOut)
    (hstatus : (run (step perm) s ops).getCommitmentStatus perm c = .confirmed sub st) :
    ValidInclusion perm depth (run (step perm) s ops) c sub st :=
  (genuineInv_of_run h hgenuine).validInclusion (syncInv_of_run h ops) (new_represented h).1 hstatus

/-! ## Marks along a run -/

/-- The commitment is located in a confirmed batch. -/
def Marked (s : StateSyncState) (c : HashOut) : Prop :=
  ∃ loc, s.commitmentToBatch c = some loc ∧ loc.confirmed = true

/-- The operation applies a batch with the commitment. -/
def Mentions (c : HashOut) (op : Op) : Prop :=
  ∃ kind preimage pi b, op = .apply kind preimage pi ∧ parsed kind preimage = some b ∧
    c ∈ b.leaves

section Marks

variable {perm : State → State} {depth : ℕ} {s s' : StateSyncState} {kind : BatchKind}
  {preimage : List (BitVec 8)} {pi : Bytes32} {b : ParsedBatch} {c r : HashOut}

theorem Applies.marked_iff (h : Applies kind preimage pi b s s') (hmarked : Marked s c) :
    Marked s' c ↔ c ∉ b.leaves := by
  rcases h.location c with ⟨hc, i, -, hnew⟩ | ⟨hc, hold⟩
  · refine ⟨?_, fun hc' => absurd hc hc'⟩
    rintro ⟨loc, hloc, hmark⟩
    obtain rfl := Option.some.inj (hnew.symm.trans hloc)
    cases hmark
  · refine ⟨fun _ => hc, fun _ => ?_⟩
    unfold Marked
    rw [hold]
    exact hmarked

theorem Confirms.marked (h : Confirms perm pi r s s') (hmarked : Marked s c) : Marked s' c := by
  obtain ⟨loc, hloc, hmark⟩ := hmarked
  unfold Marked
  rw [h.locations, hloc]
  refine ⟨_, rfl, ?_⟩
  by_cases hpi : loc.piCommitment = pi
  · simp only [if_pos hpi]
  · simp only [if_neg hpi]
    exact hmark

/-- One operation takes a mark back exactly when it applies the commitment again. -/
theorem attempt_marked_iff (hmarked : Marked s c) (op : Op) :
    Marked (attempt (step perm) s op) c ↔ ¬ Mentions c op := by
  cases hstep : step perm op s with
  | ok s' =>
    rw [attempt_ok hstep]
    rcases step_cases hstep with
      ⟨kind, preimage, pi, b, rfl, hb, -, happlies⟩ | ⟨pi, r, root, rfl, -, hconfirms⟩
    · rw [happlies.marked_iff hmarked]
      refine not_congr ⟨fun hc => ⟨kind, preimage, pi, b, rfl, hb, hc⟩, ?_⟩
      rintro ⟨kind', preimage', pi', b', heq, hb', hc⟩
      cases heq
      obtain rfl := Option.some.inj (hb.symm.trans hb')
      exact hc
    · refine ⟨fun _ => ?_, fun _ => hconfirms.marked hmarked⟩
      rintro ⟨kind', preimage', pi', b', heq, -⟩
      cases heq
  | error e =>
    rw [attempt_error hstep]
    refine ⟨fun _ => ?_, fun _ => hmarked⟩
    rintro ⟨kind, preimage, pi, b, rfl, hb, -⟩
    obtain ⟨s', hs'⟩ := applyPreimage_isOk hb pi s
    cases hstep.symm.trans hs'

theorem run_marked_iff {pre : List Op} (hmarked : Marked (run (step perm) s pre) c)
    (post : List Op) : (∀ mid, mid <+: post → Marked (run (step perm) s (pre ++ mid)) c) ↔
      ∀ op ∈ post, ¬ Mentions c op := by
  induction post using List.reverseRecOn with
  | nil =>
    refine ⟨fun _ op hop => absurd hop List.not_mem_nil, fun _ mid hmid => ?_⟩
    rw [List.prefix_nil.mp hmid, List.append_nil]
    exact hmarked
  | append_singleton post op ih =>
    rw [forall_prefix_concat, ih, ← List.append_assoc, run_concat]
    constructor
    · rintro ⟨hpost, hlast⟩ op' hop'
      rcases List.mem_append.mp hop' with hop' | hop'
      · exact hpost op' hop'
      · obtain rfl := List.mem_singleton.mp hop'
        exact (attempt_marked_iff (ih.mpr hpost post (List.prefix_refl _)) _).mp hlast
    · intro hall
      have hpost : ∀ op ∈ post, ¬ Mentions c op := fun op' hop' =>
        hall op' (List.mem_append_left _ hop')
      refine ⟨hpost, ?_⟩
      refine (attempt_marked_iff (ih.mpr hpost post (List.prefix_refl _)) _).mpr ?_
      exact hall op (List.mem_append_right _ (List.mem_singleton_self op))

end Marks

/-- A commitment reported Confirmed stays so, with valid paths as long as the batches are
genuine, exactly when no batch applied later has it. -/
theorem commitment_status_monotone {perm : State → State} {depth : ℕ} {s : StateSyncState}
    (h : StateSyncState.new perm depth = .ok s) (pre post : List Op) (c : HashOut)
    (hconfirmed : ∃ sub st,
      (run (step perm) s pre).getCommitmentStatus perm c = .confirmed sub st) :
    (∀ mid, mid <+: post → ∃ sub st,
      (run (step perm) s (pre ++ mid)).getCommitmentStatus perm c = .confirmed sub st ∧
        ∀ leavesOf, Genuine perm leavesOf (pre ++ post) →
          ValidInclusion perm depth (run (step perm) s (pre ++ mid)) c sub st) ↔
      ∀ op ∈ post, ¬ Mentions c op := by
  have hdepth := (new_represented h).1
  obtain ⟨sub, st, hstatus⟩ := hconfirmed
  rw [← run_marked_iff (marked_of_status hstatus)]
  refine forall₂_congr fun mid hmid => ⟨?_, ?_⟩
  · rintro ⟨sub, st, hstatus, -⟩
    exact marked_of_status hstatus
  · rintro ⟨loc, hloc, hmark⟩
    have hinv := syncInv_of_run h (pre ++ mid)
    obtain ⟨t, r, i, -, -, -, hstatus⟩ := hinv.status_of_marked hdepth hloc hmark
    refine ⟨_, _, hstatus, fun leavesOf hgenuine => ?_⟩
    have hsub : ∀ op ∈ pre ++ mid, op ∈ pre ++ post := fun op hop =>
      ((List.prefix_append_right_inj pre).mpr hmid).subset hop
    have hmid' : Genuine perm leavesOf (pre ++ mid) :=
      ⟨fun kind preimage pi b hop => hgenuine.applied kind preimage pi b (hsub _ hop),
        fun pi r root hop => hgenuine.confirmed pi r root (hsub _ hop)⟩
    exact (genuineInv_of_run h hmid').validInclusion hinv hdepth hstatus

/-! ## Two batches with one commitment -/

/-- A batch with the commitment zero in every slot; `x` tells the batches apart. -/
def zeroBatch (x : F) : ParsedBatch := repeatedBatch (sampleTx (fun _ => x) 0)

def applyZero (x : F) (pi : Bytes32) : Op :=
  .apply .transaction (repeatedTx (subtreeRoot id (zeroBatch x).leaves) (sampleTx (fun _ => x) 0)) pi

/-- Batch 1 is applied and confirmed. -/
def zeroConfirmed : List Op := [applyZero 1 1, .confirm 1 (subtreeRoot id (zeroBatch 1).leaves) 0]

/-- The leaves of the two batches. -/
def zeroLeavesOf (pi : Bytes32) : List HashOut :=
  if pi = 1 then (zeroBatch 1).leaves else (zeroBatch 2).leaves

theorem zeroConfirmed_genuine : Genuine id zeroLeavesOf (zeroConfirmed ++ [applyZero 2 2]) := by
  refine ⟨fun kind preimage pi b hop hb => ?_, fun pi r root hop => ?_⟩
  · rcases List.mem_cons.mp hop with heq | hop
    · cases heq
      obtain rfl := Option.some.inj ((parsed_repeatedTx _ _).symm.trans hb)
      rfl
    · rcases List.mem_cons.mp hop with heq | hop
      · cases heq
      · cases List.mem_singleton.mp hop
        obtain rfl := Option.some.inj ((parsed_repeatedTx _ _).symm.trans hb)
        rfl
  · rcases List.mem_cons.mp hop with heq | hop
    · cases heq
    · rcases List.mem_cons.mp hop with heq | hop
      · cases heq
        rfl
      · cases List.mem_singleton.mp hop

theorem zeroConfirmed_marked {s : StateSyncState} (h : StateSyncState.new id 1 = .ok s) :
    Marked (run (step id) s zeroConfirmed) 0 := by
  obtain ⟨hdepth, hrep⟩ := new_represented h
  obtain ⟨s₁, h₁⟩ := applyPreimage_isOk (parsed_repeatedTx
    (subtreeRoot id (zeroBatch 1).leaves) (sampleTx (fun _ => 1) 0)) 1 s
  obtain ⟨b, hb, happlies⟩ := applies_of_applyPreimage h₁
  obtain rfl := Option.some.inj ((parsed_repeatedTx _ _).symm.trans hb)
  rw [← happlies.stateTree] at hrep
  obtain ⟨s₂, h₂⟩ := confirmBatch_isOk hdepth hrep (by decide) 1
    (subtreeRoot id (zeroBatch 1).leaves) 0
  have hstep₁ : step id (applyZero 1 1) s = .ok s₁ := h₁
  have hstep₂ : step id (.confirm 1 (subtreeRoot id (zeroBatch 1).leaves) 0) s₁ = .ok s₂ := h₂
  rw [zeroConfirmed, run, List.foldl_cons, attempt_ok hstep₁, List.foldl_cons,
    attempt_ok hstep₂, List.foldl_nil]
  rcases happlies.location 0 with ⟨-, i, -, hloc⟩ | ⟨hc, -⟩
  · refine ⟨⟨1, i, true⟩, ?_, rfl⟩
    rw [(confirms_of_confirmBatch h₂).locations, hloc]
    rfl
  · exact absurd accoutComm_mem hc

theorem zeroConfirmed_status {s : StateSyncState} (h : StateSyncState.new id 1 = .ok s) :
    ∃ sub st, (run (step id) s zeroConfirmed).getCommitmentStatus id 0 = .confirmed sub st := by
  obtain ⟨loc, hloc, hmark⟩ := zeroConfirmed_marked h
  obtain ⟨t, r, i, -, -, -, hstatus⟩ :=
    (syncInv_of_run h zeroConfirmed).status_of_marked Nat.one_pos hloc hmark
  exact ⟨_, _, hstatus⟩

/-- The commitment zero of the confirmed batch has a valid proof of inclusion. -/
theorem confirmed_inclusion_valid_zero : ∃ s sub st, StateSyncState.new id 1 = .ok s ∧
    (run (step id) s zeroConfirmed).getCommitmentStatus id 0 = .confirmed sub st ∧
    ValidInclusion id 1 (run (step id) s zeroConfirmed) 0 sub st := by
  obtain ⟨s, h⟩ := new_isOk id Nat.one_pos
  obtain ⟨sub, st, hstatus⟩ := zeroConfirmed_status h
  have hgenuine : Genuine id zeroLeavesOf zeroConfirmed :=
    ⟨fun kind preimage pi b hop => zeroConfirmed_genuine.applied kind preimage pi b
        (List.mem_append_left _ hop),
      fun pi r root hop => zeroConfirmed_genuine.confirmed pi r root (List.mem_append_left _ hop)⟩
  exact ⟨s, sub, st, h, hstatus, confirmed_inclusion_valid h hgenuine 0 sub st hstatus⟩

/-- It stays Confirmed when its batch is confirmed once more. -/
theorem commitment_status_monotone_zero : ∃ s, StateSyncState.new id 1 = .ok s ∧
    ∃ sub st, (run (step id) s (zeroConfirmed ++
      [.confirm 1 (subtreeRoot id (zeroBatch 1).leaves) 0])).getCommitmentStatus id 0 =
        .confirmed sub st := by
  obtain ⟨s, h⟩ := new_isOk id Nat.one_pos
  have hmono := (commitment_status_monotone h zeroConfirmed
    [.confirm 1 (subtreeRoot id (zeroBatch 1).leaves) 0] 0 (zeroConfirmed_status h)).mpr
  obtain ⟨sub, st, hstatus, -⟩ := hmono (by
    rintro op hop ⟨kind, preimage, pi, b, rfl, -⟩
    cases List.mem_singleton.mp hop) _ (List.prefix_refl _)
  exact ⟨s, h, sub, st, hstatus⟩

/-- A pending batch with the same commitment takes the status back, although all batches are
genuine. -/
theorem confirmed_commitment_pending : ∃ s, StateSyncState.new id 1 = .ok s ∧
    Genuine id zeroLeavesOf (zeroConfirmed ++ [applyZero 2 2]) ∧
    (∃ sub st, (run (step id) s zeroConfirmed).getCommitmentStatus id 0 = .confirmed sub st) ∧
    (run (step id) s (zeroConfirmed ++ [applyZero 2 2])).getCommitmentStatus id 0 =
      .pending 2 := by
  obtain ⟨s, h⟩ := new_isOk id Nat.one_pos
  refine ⟨s, h, zeroConfirmed_genuine, zeroConfirmed_status h, ?_⟩
  obtain ⟨s', hs'⟩ := applyPreimage_isOk (parsed_repeatedTx
    (subtreeRoot id (zeroBatch 2).leaves) (sampleTx (fun _ => 2) 0)) 2
    (run (step id) s zeroConfirmed)
  obtain ⟨b, hb, happlies⟩ := applies_of_applyPreimage hs'
  obtain rfl := Option.some.inj ((parsed_repeatedTx _ _).symm.trans hb)
  have hstep : step id (applyZero 2 2) (run (step id) s zeroConfirmed) = .ok s' := hs'
  rw [run_concat, attempt_ok hstep]
  rcases happlies.location 0 with ⟨-, i, -, hloc⟩ | ⟨hc, -⟩
  · simp only [StateSyncState.getCommitmentStatus, hloc]
    rfl
  · exact absurd accoutComm_mem hc

end Doxa.StateSync
