import Doxa.StateSync.Retry

/-!
# What state-sync survives

The contract takes any bytes behind the two roots it checks, and any subpool root.
`bytes_to_hash` panics on a digest that is not reduced, a preimage that is too short and a
subpool root that is not a digest are errors, and a range that was not synced is read again.

`Processable` says that a history has none of this. `Alive` is what a run needs of the state
before it: all that is submitted and not settled is pending, and the tree has room. It does
not relate the leaves to the history, so it holds also where `confirm_batch` takes the batch
of the other kind.
-/

namespace Doxa.StateSync

open Lib Trees Contract Function

/-! ## What the history holds -/

section Canonical

variable {kind : BatchKind} {preimage : List (BitVec 8)} {off : ℕ}

/-- Four elements of the field stand at `off`. -/
def DigestAt (preimage : List (BitVec 8)) (off : ℕ) : Prop :=
  ∃ h : HashOut, Server.FieldsAt (byteOf preimage) off h

theorem readHash_isSome (hlength : off + 32 ≤ preimage.length) :
    (readHash preimage off).isSome ↔ DigestAt preimage off := by
  rw [Option.isSome_iff_exists]
  constructor
  · rintro ⟨h, hread⟩
    exact ⟨h, fieldsAt_of_readHash hread hlength⟩
  · rintro ⟨h, hfields⟩
    exact ⟨h, readHash_fieldsAt hfields hlength⟩

/-- Where a batch has its commitments, in all slots, and its nullifiers, in the real ones. -/
def digestOffs : BatchKind → List (BitVec 8) → List ℕ
  | .transaction, preimage =>
    ((List.range PRIV_TX_BATCH_SIZE).flatMap txCommitmentPlaces).map Prod.fst ++
      ((List.range PRIV_TX_BATCH_SIZE).filter fun s =>
        readGlBool preimage (txSlotOff s)).flatMap txNullifierOffs
  | .bridgeTx, preimage =>
    (((List.range BRIDGE_TX_HALF_SIZE).map fun s => wSlotOff s + W_ACCOUT_COMM_OFF) ++
      (List.range BRIDGE_TX_HALF_SIZE).map fun s => dSlotOff s + D_ACCOUT_COMM_OFF) ++
      ((((List.range BRIDGE_TX_HALF_SIZE).filter fun s =>
          readGlBool preimage (wSlotOff s)).map fun s => wSlotOff s + W_ACCIN_NULL_OFF) ++
        ((List.range BRIDGE_TX_HALF_SIZE).filter fun s =>
          readGlBool preimage (dSlotOff s)).map fun s => dSlotOff s + D_ACCIN_NULL_OFF)

/-- The preimage is as long as its kind asks and the digests in it are reduced. -/
structure Canonical (kind : BatchKind) (preimage : List (BitVec 8)) : Prop where
  length : preimageLen kind ≤ preimage.length
  digests : ∀ off ∈ digestOffs kind preimage, DigestAt preimage off

theorem digestOffs_le (h : off ∈ digestOffs kind preimage) : off + 32 ≤ preimageLen kind := by
  cases kind with
  | transaction =>
    have hcommitments : ∀ place ∈ (List.range PRIV_TX_BATCH_SIZE).flatMap txCommitmentPlaces,
        place.1 + 32 ≤ TX_PREIMAGE_LEN := by decide +kernel
    have hnullifiers : ∀ off ∈ (List.range PRIV_TX_BATCH_SIZE).flatMap txNullifierOffs,
        off + 32 ≤ TX_PREIMAGE_LEN := by decide +kernel
    rcases List.mem_append.mp h with h | h
    · obtain ⟨place, hplace, rfl⟩ := List.mem_map.mp h
      exact hcommitments place hplace
    · obtain ⟨s, hs, hoff⟩ := List.mem_flatMap.mp h
      exact hnullifiers off (List.mem_flatMap.mpr ⟨s, List.mem_of_mem_filter hs, hoff⟩)
  | bridgeTx =>
    have hslots : ∀ s ∈ List.range BRIDGE_TX_HALF_SIZE,
        wSlotOff s + W_ACCOUT_COMM_OFF + 32 ≤ BRIDGE_TX_PREIMAGE_LEN ∧
        dSlotOff s + D_ACCOUT_COMM_OFF + 32 ≤ BRIDGE_TX_PREIMAGE_LEN ∧
        wSlotOff s + W_ACCIN_NULL_OFF + 32 ≤ BRIDGE_TX_PREIMAGE_LEN ∧
        dSlotOff s + D_ACCIN_NULL_OFF + 32 ≤ BRIDGE_TX_PREIMAGE_LEN := by decide +kernel
    simp only [digestOffs, List.mem_append, List.mem_map, List.mem_filter] at h
    rcases h with (⟨s, hs, rfl⟩ | ⟨s, hs, rfl⟩) | ⟨s, ⟨hs, -⟩, rfl⟩ | ⟨s, ⟨hs, -⟩, rfl⟩
    · exact (hslots s hs).1
    · exact (hslots s hs).2.1
    · exact (hslots s hs).2.2.1
    · exact (hslots s hs).2.2.2

theorem mapM_isSome {α β : Type} {f : α → Option β} {xs : List α} :
    (xs.mapM f).isSome ↔ ∀ x ∈ xs, (f x).isSome := by
  induction xs with
  | nil => simp
  | cons x xs ih =>
    rw [List.forall_mem_cons, ← ih, List.mapM_cons]
    cases f x <;> cases xs.mapM f <;> simp

theorem readCommitments_isSome {places : List (ℕ × ℕ)} : (readCommitments preimage places).isSome ↔
    ∀ off ∈ places.map Prod.fst, (readHash preimage off).isSome := by
  simp only [readCommitments, mapM_isSome, Option.isSome_map, List.forall_mem_map]

theorem parsePreimage_isSome : (parsePreimage kind preimage).isSome ↔
    ∀ off ∈ digestOffs kind preimage, (readHash preimage off).isSome := by
  have hbind : ∀ (x : Option (List (HashOut × ℕ))) (y : Option (List HashOut)),
      (x >>= fun commitments => y >>= fun nullifiers =>
        (pure ⟨commitments, nullifiers⟩ : Option ParsedBatch)).isSome ↔ x.isSome ∧ y.isSome := by
    intro x y
    cases x <;> cases y <;> simp
  cases kind with
  | transaction =>
    rw [digestOffs, List.forall_mem_append, ← readCommitments_isSome, ← mapM_isSome]
    exact hbind _ _
  | bridgeTx =>
    have hplaces : (((List.range BRIDGE_TX_HALF_SIZE).map fun s => (wSlotOff s + W_ACCOUT_COMM_OFF, s)) ++
        (List.range BRIDGE_TX_HALF_SIZE).map fun s =>
          (dSlotOff s + D_ACCOUT_COMM_OFF, 256 + s)).map Prod.fst =
        ((List.range BRIDGE_TX_HALF_SIZE).map fun s => wSlotOff s + W_ACCOUT_COMM_OFF) ++
          (List.range BRIDGE_TX_HALF_SIZE).map fun s => dSlotOff s + D_ACCOUT_COMM_OFF := by
      rw [List.map_append, List.map_map, List.map_map]
      rfl
    rw [digestOffs, List.forall_mem_append, ← hplaces, ← readCommitments_isSome, ← mapM_isSome]
    exact hbind _ _

/-- What `apply_tx_preimage` and `apply_bridge_preimage` take. -/
theorem parsed_isSome : (parsed kind preimage).isSome ↔ Canonical kind preimage := by
  unfold parsed
  split
  · rename_i hshort
    constructor
    · intro h
      cases h
    · exact fun h => absurd h.length (Nat.not_le_of_lt hshort)
  · rename_i hlong
    have hlength := Nat.le_of_not_lt hlong
    rw [parsePreimage_isSome]
    constructor
    · exact fun h => ⟨hlength, fun off hoff =>
        (readHash_isSome ((digestOffs_le hoff).trans hlength)).mp (h off hoff)⟩
    · exact fun h off hoff =>
        (readHash_isSome ((digestOffs_le hoff).trans hlength)).mpr (h.digests off hoff)

end Canonical

/-- The four limbs of a root are below the field order. -/
def LimbsReduced (root : U256) : Prop :=
  ∀ i : Fin 4, root.toNat / 2 ^ (64 * i.val) % 2 ^ 64 < ORDER

theorem u256LeToHash_isSome {root : U256} : (u256LeToHash root).isSome ↔ LimbsReduced root := by
  unfold u256LeToHash LimbsReduced
  split <;> simp_all

/-- State-sync can process what the history holds: the input of a transaction that submits a
batch gives a preimage that is long enough and has reduced digests, the root in the header of
a proven batch is reduced, and so is every subpool root that is set after block `start`. A
proven batch whose new root is not reduced is skipped. -/
structure Processable (chain : Chain) (start : ℕ) : Prop where
  submitted : ∀ n kind pi c, (pi, c) ∈ submissions kind (chain.before n).2 →
    ∃ preimage, chain.calldata c = some preimage ∧ Canonical kind preimage
  proven : ∀ n, ∀ p ∈ provens (chain.before n).2, LimbsReduced p.newTreeRoot →
    ∀ m c preimage, (p.piCommitment, c) ∈ submissions p.kind (chain.before m).2 →
      chain.calldata c = some preimage → DigestAt preimage 0
  updated : ∀ n root, start < n → .subpoolRootUpdated root ∈ chain.logs n → LimbsReduced root

/-- The preimage of a submission of the history. -/
def FromChain (chain : Chain) (kind : BatchKind) (pi : Bytes32) (preimage : List (BitVec 8)) :
    Prop :=
  32 ≤ preimage.length ∧ ∃ n c, (pi, c) ∈ submissions kind (chain.before n).2 ∧
    chain.calldata c = some preimage

structure Alive (perm : State → State) (chain : Chain) (L : List Log) (P : List Proven) (T : ℕ)
    (s : StateSyncState) : Prop where
  tree : ∃ ds, Represents (hashOutput perm) chain.deployed.treeDepth ds s.stateTree ∧
    ds.length ≤ P.length
  /-- As long as neither kind is proven, all submissions are pending. -/
  fresh : ∀ kind pi, pi ∈ (submissions kind L).map Prod.fst → (∀ p ∈ P, p.piCommitment ≠ pi) →
    (s.pendingBatches kind pi).isSome
  /-- A batch that is not proven, or the one of the other kind in its place, is pending. -/
  unfinished : ∀ kind pi,
    pi ∈ (submissions kind L).map Prod.fst ∨ s.confirmedBatches kind pi = true →
    (kind, pi) ∉ P.map Proven.key → ∃ k, (s.pendingBatches k pi).isSome
  origin : ∀ kind pi preimage, s.pendingBatches kind pi = some preimage →
    FromChain chain kind pi preimage
  confirmed : ∀ kind pi, s.confirmedBatches kind pi = true → ∃ p ∈ P, p.piCommitment = pi
  last : s.lastSyncedBlock = T

section Steps

variable {perm : State → State} {chain : Chain} {L : List Log} {P : List Proven} {T : ℕ}
  {s s' : StateSyncState}

theorem Alive.apply {kind : BatchKind} {pi : Bytes32} {preimage : List (BitVec 8)} {b : ParsedBatch}
    (h : Alive perm chain L P T s) (horigin : FromChain chain kind pi preimage)
    (happlies : Applies kind preimage pi b s s') : Alive perm chain L P T s' := by
  have hat : ∀ k q, s'.pendingBatches k q =
      if k = kind ∧ q = pi then some preimage else s.pendingBatches k q := by
    intro k q
    rw [happlies.pending, update_row]
  have hgrows : ∀ k q, (s.pendingBatches k q).isSome → (s'.pendingBatches k q).isSome := by
    intro k q hq
    rw [hat]
    split
    · rfl
    · exact hq
  refine ⟨?_, ?_, ?_, ?_, ?_, happlies.lastSyncedBlock.trans h.last⟩
  · rw [happlies.stateTree]
    exact h.tree
  · intro k q hq hP
    exact hgrows k q (h.fresh k q hq hP)
  · intro k q hq hP
    rw [happlies.confirmed] at hq
    obtain ⟨k', hk'⟩ := h.unfinished k q hq hP
    exact ⟨k', hgrows k' q hk'⟩
  · intro k q x hx
    rw [hat] at hx
    split at hx
    · rename_i hboth
      cases hx
      rw [hboth.1, hboth.2]
      exact horigin
    · exact h.origin k q x hx
  · rw [happlies.confirmed]
    exact h.confirmed

/-- More submissions have been read. -/
theorem Alive.withLogs (h : Alive perm chain L P T s) {L' : List Log}
    (hknown : ∀ kind pi, pi ∈ (submissions kind L').map Prod.fst →
      pi ∈ (submissions kind L).map Prod.fst ∨ Known s kind pi) :
    Alive perm chain L' P T s := by
  refine ⟨h.tree, fun kind pi hpi hP => ?_, fun kind pi hpi hP => ?_, h.origin, h.confirmed, h.last⟩
  · rcases hknown kind pi hpi with hold | hpending | hconfirmed
    · exact h.fresh kind pi hold hP
    · exact hpending
    · obtain ⟨p, hp, hppi⟩ := h.confirmed kind pi hconfirmed
      exact absurd hppi (hP p hp)
  · rcases hpi with hpi | hconfirmed
    · rcases hknown kind pi hpi with hold | hpending | hconfirmed
      · exact h.unfinished kind pi (.inl hold) hP
      · exact ⟨kind, hpending⟩
      · exact h.unfinished kind pi (.inr hconfirmed) hP
    · exact h.unfinished kind pi (.inr hconfirmed) hP

/-- A proven batch that is passed over. -/
theorem Alive.skip (h : Alive perm chain L P T s) (p : Proven) : Alive perm chain L (P ++ [p]) T s := by
  refine ⟨?_, fun kind pi hpi hP => ?_, fun kind pi hpi hP => ?_, h.origin, fun kind pi hpi => ?_,
    h.last⟩
  · obtain ⟨ds, hrep, hlength⟩ := h.tree
    refine ⟨ds, hrep, hlength.trans ?_⟩
    rw [List.length_append]
    exact Nat.le_add_right _ _
  · exact h.fresh kind pi hpi fun q hq => hP q (List.mem_append_left [p] hq)
  · refine h.unfinished kind pi hpi fun hq => hP ?_
    rw [List.map_append]
    exact List.mem_append_left _ hq
  · obtain ⟨q, hq, hqpi⟩ := h.confirmed kind pi hpi
    exact ⟨q, List.mem_append_left [p] hq, hqpi⟩

/-- Of the two kinds one is not proven, when `p` is not. -/
theorem fresh_of_unproven {kind : BatchKind} {p : Proven} (hkind : kind ≠ p.kind)
    (hp : p.key ∉ P.map Proven.key) (hother : (kind, p.piCommitment) ∉ P.map Proven.key) :
    ∀ q ∈ P, q.piCommitment ≠ p.piCommitment := by
  intro q hq hpi
  have hmem : q.key ∈ P.map Proven.key := List.mem_map_of_mem hq
  by_cases hsame : q.kind = p.kind
  · rw [Proven.key, hsame, hpi] at hmem
    exact hp hmem
  · have hqkind : q.kind = kind := by
      cases hq' : q.kind <;> cases hp' : p.kind <;> cases kind <;> simp_all
    rw [Proven.key, hqkind, hpi] at hmem
    exact hother hmem

/-- Confirming a proven batch that is pending, under its kind. -/
theorem Alive.confirm {p : Proven} {preimage : List (BitVec 8)} {r : HashOut}
    (h : Alive perm chain L P T s) (hp : p.key ∉ P.map Proven.key)
    (hpending : s.pendingBatches p.kind p.piCommitment = some preimage)
    (hconfirms : Confirms perm p.piCommitment r s s') : Alive perm chain L (P ++ [p]) T s' := by
  obtain ⟨ds, hrep, hlength⟩ := h.tree
  obtain ⟨-, hrep', -⟩ := hconfirms.represents hrep
  cases hconfirms.batches with
  | unknown hnone _ _ =>
    rw [hnone] at hpending
    cases hpending
  | moved m hknown hfirst hpend hconf =>
    have hpend' : ∀ k q, s'.pendingBatches k q =
        if k = m ∧ q = p.piCommitment then none else s.pendingBatches k q := by
      intro k q
      rw [hpend, update_row]
    have hconf' : ∀ k q, s'.confirmedBatches k q =
        if k = m ∧ q = p.piCommitment then true else s.confirmedBatches k q := by
      intro k q
      rw [hconf, update_row]
    refine ⟨⟨_, hrep', ?_⟩, ?_, ?_, ?_, ?_, hconfirms.lastSyncedBlock.trans h.last⟩
    · rw [List.length_append, List.length_append]
      exact Nat.add_le_add_right hlength 1
    · intro k q hq hP
      have hother : q ≠ p.piCommitment := fun heq =>
        hP p (List.mem_append_right P List.mem_cons_self) heq.symm
      rw [hpend', if_neg fun hboth => hother hboth.2]
      exact h.fresh k q hq fun p' hp' => hP p' (List.mem_append_left [p] hp')
    · intro k q hq hP
      rw [List.map_append, List.mem_append, not_or, List.map_singleton, List.mem_singleton] at hP
      by_cases hpi : q = p.piCommitment
      · subst hpi
        have hkind : k ≠ p.kind := fun heq => hP.2 (by rw [heq, Proven.key])
        have hfresh := fresh_of_unproven hkind hp hP.1
        by_cases hm : m = p.kind
        · -- the batch of the other kind is still there
          refine ⟨k, ?_⟩
          rw [hpend', if_neg fun hboth => hkind (hboth.1.trans hm)]
          rcases hq with hq | hq
          · exact h.fresh k _ hq hfresh
          · rw [hconf', if_neg fun hboth => hkind (hboth.1.trans hm)] at hq
            obtain ⟨q, hq, hqpi⟩ := h.confirmed k _ hq
            exact absurd hqpi (hfresh q hq)
        · refine ⟨p.kind, ?_⟩
          rw [hpend', if_neg fun hboth => hm hboth.1.symm, hpending]
          rfl
      · rw [hconf', if_neg fun hboth => hpi hboth.2] at hq
        obtain ⟨k', hk'⟩ := h.unfinished k q hq hP.1
        refine ⟨k', ?_⟩
        rw [hpend', if_neg fun hboth => hpi hboth.2]
        exact hk'
    · intro k q x hx
      rw [hpend'] at hx
      split at hx
      · cases hx
      · exact h.origin k q x hx
    · intro k q hq
      rw [hconf'] at hq
      split at hq
      · rename_i hboth
        exact ⟨p, List.mem_append_right P List.mem_cons_self, hboth.2.symm⟩
      · obtain ⟨p', hp', hpi⟩ := h.confirmed k q hq
        exact ⟨p', List.mem_append_left [p] hp', hpi⟩

end Steps

/-! ## The calls for the submissions -/

/-- The batches in `K` have been read since `s₀`, each with its call. -/
structure Asked (poll : Poll) (s₀ : StateSyncState) (K : List (BatchKind × Bytes32))
    (s : StateSyncState) : Prop where
  known : ∀ k ∈ K, Known s k.1 k.2
  unchanged : ∀ k, k ∉ K → (Known s k.1 k.2 ↔ Known s₀ k.1 k.2)
  asked : ∀ k ∈ K, Known s₀ k.1 k.2 ∨ poll.rpc (.submissionInput k.1 k.2) = true

section Calls

variable {perm : State → State} {chain : Chain} {chunkBlocks : ℕ} {poll : Poll}
  {s₀ s s' : StateSyncState} {K : List (BatchKind × Bytes32)} {kind : BatchKind}

/-- Applying a preimage makes its batch known and no other. -/
theorem Applies.known_iff {preimage : List (BitVec 8)} {pi : Bytes32} {b : ParsedBatch}
    (h : Applies kind preimage pi b s s') (k : BatchKind) (q : Bytes32) :
    Known s' k q ↔ Known s k q ∨ k = kind ∧ q = pi := by
  unfold Known
  rw [h.pending, h.confirmed, update_row]
  split
  · rename_i hboth
    simp [hboth]
  · rename_i hother
    simp [hother]

theorem Asked.add (h : Asked poll s₀ K s) {pi : Bytes32}
    (hgrows : ∀ k q, Known s' k q ↔ Known s k q ∨ k = kind ∧ q = pi)
    (hask : Known s₀ kind pi ∨ poll.rpc (.submissionInput kind pi) = true) :
    Asked poll s₀ (K ++ [(kind, pi)]) s' := by
  refine ⟨fun k hk => ?_, fun k hk => ?_, fun k hk => ?_⟩
  · rw [hgrows]
    rcases List.mem_append.mp hk with hk | hk
    · exact .inl (h.known k hk)
    · rw [List.mem_singleton.mp hk]
      exact .inr ⟨rfl, rfl⟩
  · rw [List.mem_append, not_or, List.mem_singleton] at hk
    have hother : ¬ (k.1 = kind ∧ k.2 = pi) := fun hboth => hk.2 (Prod.ext hboth.1 hboth.2)
    rw [hgrows, or_iff_left hother]
    exact h.unchanged k hk.1
  · rcases List.mem_append.mp hk with hk | hk
    · exact h.asked k hk
    · rw [List.mem_singleton.mp hk]
      exact hask

theorem applyPreimage_ne_rpc {preimage : List (BitVec 8)} {pi : Bytes32} {e : SyncError}
    (h : applyPreimage kind preimage pi s = .error e) : e ≠ .rpc := by
  unfold applyPreimage at h
  split at h
  · cases h
    decide
  · split at h
    · cases h
      decide
    · cases h

/-- A submission is passed over or asked for; only the call for it fails as a call. -/
theorem applySubmission_asked (entry : Bytes32 × Call) :
    Program.Triple (Asked poll s₀ K) (applySubmission chain poll kind entry)
      (fun _ => Asked poll s₀ (K ++ [(kind, entry.1)]))
      (fun e _ => e = .rpc → ¬ Known s₀ kind entry.1 ∧
        poll.rpc (.submissionInput kind entry.1) = false) := by
  obtain ⟨pi, c⟩ := entry
  unfold applySubmission
  refine Program.triple_bind (Q := fun known s => Asked poll s₀ K s ∧
    (known = true ↔ Known s kind pi)) (Program.triple_read fun s hs => ⟨hs, ?_⟩) fun known => ?_
  · rw [Bool.or_eq_true]
    rfl
  cases known with
  | true =>
    refine Program.triple_pure fun s hs => hs.1.add (fun k q => ?_) ?_
    · refine (or_iff_left_of_imp ?_).symm
      rintro ⟨rfl, rfl⟩
      exact hs.2.mp rfl
    · by_cases hK : (kind, pi) ∈ K
      · exact hs.1.asked _ hK
      · exact .inl ((hs.1.unchanged _ hK).mp (hs.2.mp rfl))
  | false =>
    refine triple_call poll (fun hrpc => ?_) fun hrpc s hs _ => ⟨fun hold => ?_, hrpc⟩
    · unfold decodeCalldata
      split
      · refine Program.triple_change (fun s s' hs happly => ?_) fun s e _ happly he => ?_
        · obtain ⟨b, -, happlies⟩ := applies_of_applyPreimage happly
          exact hs.1.add happlies.known_iff (.inr hrpc)
        · exact absurd he (applyPreimage_ne_rpc happly)
      · rw [Program.fail_bind]
        exact Program.triple_fail fun s _ he => by cases he
    · have hnew : ¬ Known s kind pi := fun hknown => Bool.noConfusion (hs.2.mpr hknown)
      by_cases hK : (kind, pi) ∈ K
      · exact hnew (hs.1.known _ hK)
      · exact hnew ((hs.1.unchanged _ hK).mpr hold)

/-- The entries of one submit map, in any order. -/
theorem applySubmissions_asked {entries : List (Bytes32 × Call)} {early : Prop}
    (hearly : early → ∀ e ∈ entries, ¬ Known s₀ kind e.1 →
      poll.rpc (.submissionInput kind e.1) = true) :
    Program.Triple (Asked poll s₀ K) (Program.forEach (applySubmission chain poll kind) entries)
      (fun _ => Asked poll s₀ (K ++ entries.map fun e => (kind, e.1)))
      (fun e _ => e = .rpc → ¬ early) := by
  have hloop := Program.triple_forEach (applySubmission chain poll kind) entries
    (E := fun e _ => e = .rpc → ¬ early)
    (fun done => Asked poll s₀ (K ++ done.map fun e => (kind, e.1))) ?_
  · rw [List.map_nil, List.append_nil] at hloop
    exact hloop
  · intro done x rest hsplit
    have hx : x ∈ entries := by
      rw [hsplit]
      exact List.mem_append_right done List.mem_cons_self
    rw [List.map_append, ← List.append_assoc]
    refine (applySubmission_asked x).conseq (fun _ h => h) (fun _ _ h => h) ?_
    intro e s h he hearly'
    obtain ⟨hnew, hrpc⟩ := h he
    rw [hearly hearly' x hx hnew] at hrpc
    cases hrpc

end Calls

/-! ## One range -/

section Range

variable {perm : State → State} {chain : Chain} {chunkBlocks start : ℕ} {poll : Poll}
  {L : List Log} {P : List Proven} {T : ℕ} {s₀ : StateSyncState}

theorem applySubmission_alive (hread : Processable chain start) {n : ℕ} {kind : BatchKind}
    {entry : Bytes32 × Call} (hentry : entry ∈ submissions kind (chain.before n).2) :
    Program.Triple (Alive perm chain L P T) (applySubmission chain poll kind entry)
      (fun _ => Alive perm chain L P T) (fun e s => e = .rpc ∧ Alive perm chain L P T s) := by
  obtain ⟨pi, c⟩ := entry
  obtain ⟨preimage, hcalldata, hcanonical⟩ := hread.submitted n kind pi c hentry
  obtain ⟨b, hparsed⟩ := Option.isSome_iff_exists.mp (parsed_isSome.mpr hcanonical)
  have hheader : 32 ≤ preimageLen kind := by
    cases kind <;> decide
  have hlength : 32 ≤ preimage.length := hheader.trans hcanonical.length
  unfold applySubmission
  refine Program.triple_bind (Q := fun _ => Alive perm chain L P T)
    (Program.triple_read fun s hs => hs) fun known => ?_
  cases known with
  | true => exact Program.triple_pure fun s hs => hs
  | false =>
    refine triple_call poll (fun hrpc => ?_) fun hrpc s hs => ⟨rfl, hs⟩
    rw [decodeCalldata, hcalldata]
    refine Program.triple_change (fun s s' hs happly => ?_) fun s e hs happly => ?_
    · obtain ⟨b', -, happlies⟩ := applies_of_applyPreimage happly
      exact hs.apply ⟨hlength, n, c, hentry, hcalldata⟩ happlies
    · obtain ⟨s', hs'⟩ := applyPreimage_isOk hparsed pi s
      rw [hs'] at happly
      cases happly

/-- The entries of one submit map, with the calls made for them. -/
theorem applySubmissions_alive (hread : Processable chain start) {n : ℕ} {kind : BatchKind}
    {entries : List (Bytes32 × Call)} {K : List (BatchKind × Bytes32)} {early : Prop}
    (hentries : ∀ e ∈ entries, e ∈ submissions kind (chain.before n).2)
    (hearly : early → ∀ e ∈ entries, ¬ Known s₀ kind e.1 →
      poll.rpc (.submissionInput kind e.1) = true) :
    Program.Triple (fun s => Alive perm chain L P T s ∧ Asked poll s₀ K s)
      (Program.forEach (applySubmission chain poll kind) entries)
      (fun _ s => Alive perm chain L P T s ∧
        Asked poll s₀ (K ++ entries.map fun e => (kind, e.1)) s)
      (fun e s => e = .rpc ∧ Alive perm chain L P T s ∧ ¬ early) := by
  have halive := Program.triple_forEach (applySubmission chain poll kind) entries
    (E := fun e s => e = .rpc ∧ Alive perm chain L P T s) (fun _ => Alive perm chain L P T)
    fun done x rest hsplit => applySubmission_alive hread (hentries x (by
      rw [hsplit]
      exact List.mem_append_right done List.mem_cons_self))
  refine (halive.and (applySubmissions_asked hearly)).conseq (fun _ h => h) (fun _ _ h => h) ?_
  rintro e s ⟨⟨he, hs⟩, hnot⟩
  exact ⟨he, hs, hnot he⟩

variable (poll) in
/-- The submissions of a range are read, or a call fails and nothing is lost. -/
theorem processNewSubmissions_alive (hdeployed : Deployed chain.env chain.deployed)
    (hread : Processable chain start) (hchunk : 0 < chunkBlocks) (fromBlock toBlock : ℕ)
    (h₀ : Alive perm chain (chain.before fromBlock).2 P T s₀) :
    Program.Triple (fun s => s = s₀) (processNewSubmissions chain chunkBlocks poll fromBlock toBlock)
      (fun _ s => Alive perm chain (chain.before (max fromBlock (toBlock + 1))).2 P T s ∧
        (∀ kind, Fetched chunkBlocks poll (.submitted kind) fromBlock toBlock) ∧
        ∀ kind pi, pi ∈ (submissions kind (chain.logsIn fromBlock toBlock)).map Prod.fst →
          ¬ Known s₀ kind pi → poll.rpc (.submissionInput kind pi) = true)
      (fun e s => e = .rpc ∧ Alive perm chain (chain.before fromBlock).2 P T s ∧
        ¬ EarlyCalls chain chunkBlocks poll s₀ fromBlock toBlock) := by
  unfold processNewSubmissions
  refine triple_fetchLogs chunkBlocks poll chain hchunk (fun htx => ?_) ?_
  · refine triple_fetchLogs chunkBlocks poll chain hchunk (fun hbridge => ?_) ?_
    · have hstart : ∀ s, s = s₀ →
          Alive perm chain (chain.before fromBlock).2 P T s ∧ Asked poll s₀ [] s := by
        rintro s rfl
        exact ⟨h₀, List.forall_mem_nil _, fun _ _ => Iff.rfl, List.forall_mem_nil _⟩
      refine Program.triple_bind ((applySubmissions_alive hread
        (fun _ he => mem_before_of_order hdeployed he)
        fun h e he => h.input hdeployed he).conseq hstart (fun _ _ h => h) fun _ _ h => h) fun _ => ?_
      refine (applySubmissions_alive hread (fun _ he => mem_before_of_order hdeployed he)
        fun h e he => h.input hdeployed he).conseq (fun _ h => h) ?_ fun _ _ h => h
      rintro _ s ⟨halive, hasked⟩
      refine ⟨halive.withLogs fun kind pi hpi => ?_, fun kind => ?_, fun kind pi hpi hnew => ?_⟩
      · rw [chain.submissions_before, List.map_append, List.mem_append] at hpi
        exact hpi.imp_right fun hpi => hasked.known _ (mem_entries hdeployed hpi)
      · cases kind with
        | transaction => exact htx
        | bridgeTx => exact hbridge
      · exact (hasked.asked _ (mem_entries hdeployed hpi)).resolve_left hnew
    · rintro hnot s rfl
      exact ⟨rfl, h₀, fun h => hnot (h.submitted .bridgeTx)⟩
  · rintro hnot s rfl
    exact ⟨rfl, h₀, fun h => hnot (h.submitted .transaction)⟩

/-- Confirming the next proven batch cannot fail. -/
theorem confirmEntry_alive (hdeployed : Deployed chain.env chain.deployed)
    (hread : Processable chain start) {n : ℕ} {done rest : List Proven} {p : Proven}
    (hsplit : provens (chain.before n).2 = done ++ p :: rest) (genesisBlock searchTo : ℕ)
    {E : SyncError → StateSyncState → Prop} :
    Program.Triple (Alive perm chain (chain.before n).2 done T)
      ((decodeProvenLog p).elim (pure ())
        (confirmEntry perm chain chunkBlocks poll genesisBlock searchTo))
      (fun _ => Alive perm chain (chain.before n).2 (done ++ [p]) T) E := by
  cases hdecode : decodeProvenLog p with
  | none => exact Program.triple_pure fun s hs => hs.skip p
  | some entry =>
  obtain ⟨newRoot, hnewRoot, rfl⟩ := Option.map_eq_some_iff.mp hdecode
  have hmem : p ∈ provens (chain.before n).2 := by
    rw [hsplit]
    exact List.mem_append_right done List.mem_cons_self
  have hinv := chain.before_inv hdeployed n
  have hsubmitted := chain.submitted_of_proven hdeployed hmem
  have hunproven : p.key ∉ done.map Proven.key := by
    have honce := hinv.provenOnce
    rw [hsplit, List.map_append, List.map_cons, List.nodup_append] at honce
    exact fun hp => honce.2.2 p.key hp p.key List.mem_cons_self rfl
  have hroom : ∀ ds : List HashOut, ds.length ≤ done.length →
      ds.length < 2 ^ chain.deployed.treeDepth := by
    intro ds hds
    have hcount := congrArg List.length hinv.indices
    rw [List.length_map, List.length_range, hsplit, List.length_append, List.length_cons] at hcount
    have hroom := hinv.room
    omega
  have hheader : ∀ preimage, FromChain chain p.kind p.piCommitment preimage →
      ∃ root, extractBatchRootFromPreimage preimage = .ok root := by
    rintro preimage ⟨hlength, m, c, hc, hcalldata⟩
    have hreduced := u256LeToHash_isSome.mp (Option.isSome_iff_exists.mpr ⟨newRoot, hnewRoot⟩)
    obtain ⟨root, hroot⟩ := Option.isSome_iff_exists.mp ((readHash_isSome hlength).mpr
      (hread.proven n p hmem hreduced m c preimage hc hcalldata))
    refine ⟨root, ?_⟩
    rw [extractBatchRootFromPreimage, if_neg (Nat.not_lt_of_le hlength), hroot]
  rw [Option.elim_some]
  unfold confirmEntry
  dsimp only
  refine Program.triple_bind (Q := fun known s => known = true ∧
      Alive perm chain (chain.before n).2 done T s)
    (Program.triple_read fun s hs => ⟨?_, hs⟩) fun known => ?_
  · obtain ⟨k, hk⟩ := hs.unfinished p.kind p.piCommitment (.inl hsubmitted) hunproven
    rw [Bool.or_eq_true]
    cases k with
    | transaction => exact .inl hk
    | bridgeTx => exact .inr hk
  cases known with
  | false => exact Program.triple_absurd fun s hs => Bool.noConfusion hs.1
  | true =>
  rw [if_pos rfl]
  refine Program.triple_bind (Q := fun pending s => s.pendingBatches p.kind p.piCommitment = pending ∧
      Alive perm chain (chain.before n).2 done T s)
    (Program.triple_read fun s hs => ⟨rfl, hs.2⟩) fun pending => ?_
  cases pending with
  | none => exact Program.triple_pure fun s hs => hs.2.skip p
  | some preimage =>
    refine Program.triple_bind (Q := fun _ s => s.pendingBatches p.kind p.piCommitment = some preimage ∧
        Alive perm chain (chain.before n).2 done T s)
      (Program.triple_ofExcept ?_ ?_) fun root => Program.triple_change ?_ ?_
    · exact fun _ _ s hs => hs
    · intro e herror s hs
      obtain ⟨root, hroot⟩ := hheader preimage (hs.2.origin _ _ _ hs.1)
      rw [hroot] at herror
      cases herror
    · intro s s' hs hconfirm
      exact hs.2.confirm hunproven hs.1 (confirms_of_confirmBatch hconfirm)
    · intro s e hs hconfirm
      obtain ⟨ds, hrep, hlength⟩ := hs.2.tree
      obtain ⟨s', hs'⟩ := confirmBatch_isOk (treeDepth_pos hdeployed) hrep (hroom ds hlength)
        p.piCommitment root newRoot
      rw [hs'] at hconfirm
      cases hconfirm

/-- The proven batches of a range, in the order of the chain. -/
theorem confirmBatches_alive (hdeployed : Deployed chain.env chain.deployed)
    (hread : Processable chain start) (fromBlock toBlock genesisBlock searchTo : ℕ)
    {E : SyncError → StateSyncState → Prop} :
    Program.Triple
      (Alive perm chain (chain.before (max fromBlock (toBlock + 1))).2
        (provens (chain.before fromBlock).2) T)
      (Program.forEach (confirmEntry perm chain chunkBlocks poll genesisBlock searchTo)
        ((provens (chain.logsIn fromBlock toBlock)).filterMap decodeProvenLog))
      (fun _ => Alive perm chain (chain.before (max fromBlock (toBlock + 1))).2
        (provens (chain.before (max fromBlock (toBlock + 1))).2) T) E := by
  generalize hn : max fromBlock (toBlock + 1) = n
  have hprovens : provens (chain.before n).2 =
      provens (chain.before fromBlock).2 ++ provens (chain.logsIn fromBlock toBlock) := by
    rw [← hn, chain.provens_before]
  rw [Program.forEach_filterMap]
  have hloop := Program.triple_forEach (E := E)
    (fun p => (decodeProvenLog p).elim (pure ())
      (confirmEntry perm chain chunkBlocks poll genesisBlock searchTo))
    (provens (chain.logsIn fromBlock toBlock))
    (fun done => Alive perm chain (chain.before n).2
      (provens (chain.before fromBlock).2 ++ done) T) ?_
  · rw [List.append_nil, ← hprovens] at hloop
    exact hloop
  · intro done p rest hsplit
    have hsplit' : provens (chain.before n).2 =
        (provens (chain.before fromBlock).2 ++ done) ++ p :: rest := by
      rw [hprovens, hsplit, List.append_assoc]
    rw [← List.append_assoc]
    exact confirmEntry_alive hdeployed hread hsplit' genesisBlock searchTo

end Range

/-! ## Runs -/

section Runs

variable {perm : State → State} {chain : Chain} {chunkBlocks start genesisBlock : ℕ} {poll : Poll}
  {s₀ s : StateSyncState}

/-- The state has followed the history up to block `n`. -/
def AliveUpTo (perm : State → State) (chain : Chain) (n : ℕ) (s : StateSyncState) : Prop :=
  Alive perm chain (chain.before n).2 (provens (chain.before n).2) s.lastSyncedBlock s

theorem Alive.upTo {n T : ℕ} (h : Alive perm chain (chain.before n).2 (provens (chain.before n).2) T s) :
    AliveUpTo perm chain n s := by
  unfold AliveUpTo
  rw [h.last]
  exact h

/-- Fewer submissions have been read. -/
theorem Alive.fewerLogs {fromBlock toBlock T : ℕ} {P : List Proven}
    (h : Alive perm chain (chain.before (max fromBlock (toBlock + 1))).2 P T s) :
    Alive perm chain (chain.before fromBlock).2 P T s := by
  refine h.withLogs fun kind pi hpi => .inl ?_
  rw [chain.submissions_before, List.map_append]
  exact List.mem_append_left _ hpi

variable (poll) in
theorem syncRange_alive (hdeployed : Deployed chain.env chain.deployed)
    (hread : Processable chain start) (hchunk : 0 < chunkBlocks) (initial : Bool)
    (genesisBlock searchTo : ℕ) {fromBlock toBlock : ℕ} (hstart : initial = false → start < fromBlock)
    (h₀ : AliveUpTo perm chain fromBlock s₀) :
    RangeSynced (AliveUpTo perm chain) perm chain chunkBlocks poll initial genesisBlock searchTo
      fromBlock toBlock s₀ := by
  refine syncRange_rule (Alive perm chain (chain.before (max fromBlock (toBlock + 1))).2
    (provens (chain.before fromBlock).2) s₀.lastSyncedBlock) hdeployed hchunk initial genesisBlock
    searchTo fromBlock toBlock ?_ (fun s hs => ⟨hs.fewerLogs.upTo, hs.last⟩) ?_ ?_ ?_
  · refine (processNewSubmissions_alive poll hdeployed hread hchunk fromBlock toBlock h₀).conseq
      (fun _ h => h) (fun _ _ h => h) ?_
    rintro e s ⟨he, hs, hearly⟩
    exact ⟨he, hs.upTo, hs.last, hearly⟩
  · refine (confirmBatches_alive hdeployed hread fromBlock toBlock genesisBlock searchTo).conseq
      (fun _ h => h) (fun _ s hs => ⟨hs.upTo, hs.last⟩) fun _ _ h => h
  · intro hlater root hroot
    obtain ⟨n, hn, hlog⟩ := List.mem_flatMap.mp hroot
    exact u256LeToHash_isSome.mpr
      (hread.updated n root ((hstart hlater).trans_le (List.mem_range'_1.mp hn).1) hlog)
  · intro s hs
    exact ⟨hs.tree, hs.fresh, hs.unfinished, hs.origin, hs.confirmed, rfl⟩

variable (poll genesisBlock) in
/-- A safe run succeeds or a call of it fails. -/
theorem servePoll_alive (hdeployed : Deployed chain.env chain.deployed)
    (hread : Processable chain start) (hchunk : 0 < chunkBlocks) (hstart : start ≤ s.lastSyncedBlock)
    (h : AliveUpTo perm chain (s.lastSyncedBlock + 1) s) (hsafe : PollSafe chain chunkBlocks poll s) :
    ∃ result s', servePoll perm chain chunkBlocks poll genesisBlock (some s) =
        (result, some s') ∧ AliveUpTo perm chain (s'.lastSyncedBlock + 1) s' ∧
      s.lastSyncedBlock ≤ s'.lastSyncedBlock ∧ (result = .ok () ∨ result = .error .rpc) ∧
      ((∀ c, poll.rpc c = true) →
        result = .ok () ∧ s'.lastSyncedBlock = max s.lastSyncedBlock poll.toBlock) := by
  refine servePoll_rule (syncRange_alive poll hdeployed hread hchunk false genesisBlock
    s.lastSyncedBlock (fun _ => Nat.lt_succ_of_le hstart) h) (fun s' hnone hs' => ?_) h hsafe
  unfold AliveUpTo at hs' ⊢
  rw [chain.provens_before, hnone, List.append_nil] at hs'
  exact hs'.fewerLogs

theorem alive_new (h : StateSyncState.new perm chain.deployed.treeDepth = .ok s) :
    Alive perm chain [] [] s.lastSyncedBlock s := by
  obtain ⟨-, hrep⟩ := new_represented h
  have hnone := new_batches h
  refine ⟨⟨[], hrep, le_rfl⟩, ?_, ?_, ?_, ?_, rfl⟩
  · intro kind pi hpi
    cases hpi
  · rintro kind pi (hpi | hpi)
    · cases hpi
    · rw [hnone.2] at hpi
      cases hpi
  · intro kind pi preimage hpi
    rw [hnone.1] at hpi
    cases hpi
  · intro kind pi hpi
    rw [hnone.2] at hpi
    cases hpi

theorem syncFromGenesis_range (hdeployed : Deployed chain.env chain.deployed)
    (hread : Processable chain start) (hchunk : 0 < chunkBlocks)
    (hgenesis : ∀ n < genesisBlock, chain.blocks n = []) (new : StateSyncState)
    (hnew : StateSyncState.new perm chain.deployed.treeDepth = .ok new) :
    RangeSynced (AliveUpTo perm chain) perm chain chunkBlocks poll true genesisBlock poll.toBlock
      genesisBlock poll.toBlock new := by
  refine syncRange_alive poll hdeployed hread hchunk true _ _ Bool.noConfusion ?_
  unfold AliveUpTo
  rw [before_genesis hgenesis le_rfl]
  exact alive_new hnew

theorem syncFromGenesis_alive (hdeployed : Deployed chain.env chain.deployed)
    (hread : Processable chain start) (hchunk : 0 < chunkBlocks)
    (hgenesis : ∀ n < genesisBlock, chain.blocks n = [])
    (h : syncFromGenesis perm chain chunkBlocks poll genesisBlock = .ok s) :
    s.lastSyncedBlock = poll.toBlock ∧ AliveUpTo perm chain (s.lastSyncedBlock + 1) s := by
  refine syncFromGenesis_rule hgenesis (syncFromGenesis_range hdeployed hread hchunk hgenesis)
    (fun m n s' hmn hs' => ?_) h
  unfold AliveUpTo at hs' ⊢
  rw [← hmn]
  exact hs'

end Runs

theorem sampleChain_processable : Processable sampleChain 0 where
  submitted := by
    intro n kind pi c h
    obtain ⟨rfl, rfl, rfl⟩ := sampleChain_submissions h
    exact ⟨zeroData.content, rfl, parsed_isSome.mp parsed_zeroData⟩
  proven := by
    intro n p _ _ m c preimage h hcalldata
    obtain ⟨-, -, rfl⟩ := sampleChain_submissions h
    have hpreimage : zeroData.content = preimage := Option.some.inj hcalldata
    subst hpreimage
    refine ⟨0, fieldsAt_of_readHash (readHash_zeroData (by decide)) ?_⟩
    rw [length_content]
    decide
  updated := by
    intro n root _ h
    have hlog : .subpoolRootUpdated root ∈ (sampleChain.before (n + 1)).2 := by
      rw [Chain.before_succ]
      exact List.mem_append_right _ h
    rw [sampleChain_before] at hlog
    split at hlog
    · cases hlog
    · simp [sampleLogs] at hlog

section Stops

variable {perm : State → State} {chain : Chain} {chunkBlocks : ℕ} {poll : Poll}
  {s : StateSyncState}

theorem syncConfigTree_of_rpc (hchunk : 0 < chunkBlocks) (hrpc : ∀ c, poll.rpc c = true)
    (initial : Bool) (fromBlock toBlock : ℕ) :
    syncConfigTree chain chunkBlocks poll initial fromBlock toBlock =
      if initial then pure ()
      else Program.forEach checkSubpoolRoot (chain.getLogs .subpoolRootUpdated fromBlock toBlock) := by
  unfold syncConfigTree
  rw [fetchLogs_of_rpc hchunk hrpc, Program.pure_bind, fetchLogs_of_rpc hchunk hrpc,
    Program.pure_bind, call_true poll (hrpc _)]

theorem syncDeposits_of_rpc (hchunk : 0 < chunkBlocks) (hrpc : ∀ c, poll.rpc c = true)
    (fromBlock toBlock : ℕ) : syncDeposits chain chunkBlocks poll fromBlock toBlock = pure () := by
  unfold syncDeposits
  rw [fetchLogs_of_rpc hchunk hrpc, Program.pure_bind, fetchLogs_of_rpc hchunk hrpc,
    Program.pure_bind, fetchLogs_of_rpc hchunk hrpc, Program.pure_bind]

/-- A range without batches comes down to its subpool roots. -/
theorem syncRange_of_noBatches (hdeployed : Deployed chain.env chain.deployed)
    (hchunk : 0 < chunkBlocks) (hrpc : ∀ c, poll.rpc c = true) {fromBlock toBlock : ℕ}
    (hsubmissions : ∀ kind, submissions kind (chain.logsIn fromBlock toBlock) = [])
    (hprovens : provens (chain.logsIn fromBlock toBlock) = []) (initial : Bool)
    (genesisBlock searchTo : ℕ) :
    syncRange perm chain chunkBlocks poll initial genesisBlock searchTo fromBlock toBlock s =
      ((if initial then pure ()
        else Program.forEach checkSubpoolRoot (chain.getLogs .subpoolRootUpdated fromBlock toBlock)) >>=
        fun _ : Unit => Program.change fun s => .ok { s with lastSyncedBlock := toBlock }) s := by
  have hknown : ∀ kind pi, pi ∈ (submissions kind (chain.logsIn fromBlock toBlock)).map Prod.fst →
      Known s kind pi := by
    intro kind pi hpi
    rw [hsubmissions] at hpi
    cases hpi
  obtain ⟨entries, hcollect, hsorted⟩ :=
    collectProvenBatches_of_rpc hdeployed hchunk hrpc fromBlock toBlock
  rw [hprovens, List.filterMap_nil] at hsorted
  unfold syncRange
  rw [Program.bind_ok (processNewSubmissions_known hdeployed hchunk hrpc hknown), hcollect,
    Program.pure_bind, hsorted, Program.forEach, Program.pure_bind,
    syncConfigTree_of_rpc hchunk hrpc, syncDeposits_of_rpc hchunk hrpc]
  rfl

/-- A single submission that cannot be applied. -/
theorem processNewSubmissions_error (hchunk : 0 < chunkBlocks) (hrpc : ∀ c, poll.rpc c = true)
    {fromBlock toBlock : ℕ} {pi : Bytes32} {c : Call} {preimage : List (BitVec 8)} {e : SyncError}
    (hlogs : chain.logsIn fromBlock toBlock = [.submitted .transaction pi c])
    (hnew : ¬ Known s .transaction pi) (hcalldata : chain.calldata c = some preimage)
    (happly : applyPreimage .transaction preimage pi s = .error e) :
    processNewSubmissions chain chunkBlocks poll fromBlock toBlock s = (.error e, s) := by
  have hentries : poll.order (submitMap (submissions .transaction
      (chain.getLogs (.submitted .transaction) fromBlock toBlock))) = [(pi, c)] := by
    refine List.perm_singleton.mp ((poll.order_perm _).trans (.of_eq ?_))
    unfold Chain.getLogs
    rw [submissions_filter, hlogs]
    rfl
  have hunknown : ((s.pendingBatches .transaction pi).isSome ||
      s.confirmedBatches .transaction pi) = false := by
    rw [Bool.or_eq_false_iff, Bool.eq_false_iff, Bool.eq_false_iff]
    exact ⟨fun h => hnew (.inl h), fun h => hnew (.inr h)⟩
  have hbody : applySubmission chain poll .transaction (pi, c) s = (.error e, s) := by
    unfold applySubmission
    rw [Program.read_bind, hunknown, if_neg Bool.false_ne_true, call_true poll (hrpc _),
      Program.pure_bind, decodeCalldata, hcalldata, Program.pure_bind, Program.change, happly]
  unfold processNewSubmissions
  rw [fetchLogs_of_rpc hchunk hrpc, Program.pure_bind, fetchLogs_of_rpc hchunk hrpc,
    Program.pure_bind, hentries, Program.forEach]
  exact Program.bind_error (Program.bind_error hbody)

end Stops

section Sample

variable {perm : State → State} {calls : List Call}

/-- The history of `sampleChain` with other calls. -/
def firstBlock (calls : List Call) : Chain :=
  { sampleChain with blocks := fun n => if n = 1 then calls else [] }

theorem firstBlock_deployed : Deployed (firstBlock calls).env (firstBlock calls).deployed :=
  sampleChain_deployed

theorem firstBlock_before : (firstBlock calls).before 1 = (sampleChain.deployed, []) :=
  before_genesis (fun m hm => if_neg (by omega)) le_rfl

theorem firstBlock_logs {n : ℕ} (hn : n ≠ 1) : (firstBlock calls).logs n = [] := by
  have hnone : (firstBlock calls).blocks n = [] := if_neg hn
  rw [Chain.logs, hnone, run_nil]

theorem firstBlock_start : (firstBlock calls).logsIn 0 0 = [] :=
  List.flatMap_eq_nil_iff.mpr fun n hn => firstBlock_logs (by
    have := (List.mem_range'_1.mp hn).2
    omega)

theorem firstBlock_range {m : ℕ} (hm : 1 ≤ m) :
    (firstBlock calls).logsIn 1 m = (firstBlock calls).logs 1 := by
  obtain ⟨k, rfl⟩ := Nat.exists_eq_add_of_le' hm
  have hrest : (List.range' 2 k).flatMap (firstBlock calls).logs = [] :=
    List.flatMap_eq_nil_iff.mpr fun n hn => firstBlock_logs (by
      have := (List.mem_range'_1.mp hn).1
      omega)
  rw [Chain.logsIn, Nat.add_sub_cancel, List.range'_succ, List.flatMap_cons, hrest, List.append_nil]

/-- The first sync, before the block. -/
theorem firstBlock_genesis (perm : State → State) (calls : List Call) : ∃ s₀,
    syncFromGenesis perm (firstBlock calls) 1 (samplePoll 0 fun _ => true) 0 = .ok s₀ ∧
      s₀.lastSyncedBlock = 0 ∧ ∀ kind pi, ¬ Known s₀ kind pi := by
  obtain ⟨new, hnew⟩ := new_isOk perm (treeDepth_pos sampleChain_deployed)
  have hrun : syncRange perm (firstBlock calls) 1 (samplePoll 0 fun _ => true) true 0 0 0 0 new =
      (.ok (), { new with lastSyncedBlock := 0 }) :=
    syncRange_of_noBatches firstBlock_deployed Nat.one_pos (fun _ => rfl)
      (fun kind => congrArg (submissions kind) firstBlock_start) (congrArg provens firstBlock_start)
      true 0 0
  refine ⟨{ new with lastSyncedBlock := 0 }, ?_, rfl, fun kind pi hknown => ?_⟩
  · exact syncFromGenesis_of_range rfl (fun _ => rfl) hnew hrun
  · obtain ⟨hpending, hconfirmed⟩ := new_batches hnew
    rcases hknown with hknown | hknown
    · dsimp only at hknown
      rw [hpending] at hknown
      cases hknown
    · dsimp only at hknown
      rw [hconfirmed] at hknown
      cases hknown

/-- Of a batch that is submitted the contract reads two roots. -/
theorem submitBatch_congr {env : Env} {ctx : Ctx} {kind : Contract.BatchKind} {data data' : Bytes}
    {s : ContractState} (hroot : cdB32 data 32 = cdB32 data' 32)
    (hconfig : cdB32 data 64 = cdB32 data' 64)
    (hpi : piCommitment env data = piCommitment env data') :
    submitBatch env ctx kind data s = submitBatch env ctx kind data' s := by
  unfold submitBatch stateRoot
  rw [hroot, hconfig, hpi]

theorem firstBlock_submitted {data : Bytes} (hzero : ∀ i < TX_HEADER_SIZE, data.byte i = 0) :
    (firstBlock [⟨⟨1, 0⟩, .submitTransactionBatch data⟩]).logs 1 =
      [.submitted .transaction 1 ⟨⟨1, 0⟩, .submitTransactionBatch data⟩] := by
  have hload : ∀ off, off + 32 ≤ TX_HEADER_SIZE → cdB32 data off = cdB32 zeroData off := by
    intro off hoff
    unfold cdB32
    rw [calldataload_zero fun k hk => hzero _ (by omega), calldataload_zero fun k _ => rfl]
  have hsame : Contract.step sampleEnv ⟨⟨1, 0⟩, .submitTransactionBatch data⟩ sampleChain.deployed =
      Contract.step sampleEnv sampleSubmit sampleChain.deployed :=
    submitBatch_congr (hload 32 (by decide)) (hload 64 (by decide)) rfl
  have hruns : (Contract.step sampleEnv sampleSubmit sampleChain.deployed).toBool = true := by
    decide +kernel
  cases hstep : Contract.step sampleEnv sampleSubmit sampleChain.deployed with
  | error e =>
    rw [hstep] at hruns
    cases hruns
  | ok s =>
    have hemit : emitStep (firstBlock [⟨⟨1, 0⟩, .submitTransactionBatch data⟩]).env
        ⟨⟨1, 0⟩, .submitTransactionBatch data⟩ (sampleChain.deployed, []) =
        .ok (s, [.submitted .transaction 1 ⟨⟨1, 0⟩, .submitTransactionBatch data⟩]) :=
      emitStep_ok (hsame.trans hstep)
    have hcalls : (firstBlock [⟨⟨1, 0⟩, .submitTransactionBatch data⟩]).blocks 1 =
        [] ++ [⟨⟨1, 0⟩, .submitTransactionBatch data⟩] := rfl
    rw [Chain.logs, firstBlock_before, hcalls, run_concat, run_nil, attempt_ok hemit]

/-- A batch that cannot be applied fails every run that reads it. -/
theorem firstBlock_stops {data : Bytes} {e : SyncError} {s₀ : StateSyncState}
    (hzero : ∀ i < TX_HEADER_SIZE, data.byte i = 0)
    (happly : ∀ s, applyPreimage .transaction data.content 1 s = .error e)
    (hlast : s₀.lastSyncedBlock = 0) (hnew : ∀ kind pi, ¬ Known s₀ kind pi) {poll : Poll}
    (hrpc : ∀ c, poll.rpc c = true) (hhead : 1 ≤ poll.toBlock) :
    pollSync perm (firstBlock [⟨⟨1, 0⟩, .submitTransactionBatch data⟩]) 1 poll 0 s₀ =
      (.error e, s₀) := by
  have hlogs := (firstBlock_range hhead).trans (firstBlock_submitted hzero)
  rw [pollSync_eq (hrpc _) (by rw [hlast]; exact hhead), hlast]
  exact Program.bind_error (processNewSubmissions_error Nat.one_pos hrpc hlogs (hnew _ _) rfl
    (happly s₀))

/-- The header is zero and no digest behind it is reduced. -/
def unreducedData : Bytes := ⟨TX_PREIMAGE_LEN, fun i => if i < TX_HEADER_SIZE then 0 else 0xFF⟩

def headerData : Bytes := ⟨TX_HEADER_SIZE, fun _ => 0⟩

theorem applyPreimage_unreducedData (s : StateSyncState) :
    applyPreimage .transaction unreducedData.content 1 s = .error .panic := by
  have hlength : unreducedData.content.length = TX_PREIMAGE_LEN := length_content unreducedData
  have hbyte : ∀ k < 32, (byteOf unreducedData.content (136 + k)).toNat = 255 := by
    intro k hk
    rw [byteOf_content (lt_of_lt_of_le (Nat.add_lt_add_left hk 136) (by decide))]
    have hbehind : ¬ 136 + k < TX_HEADER_SIZE := by
      unfold TX_HEADER_SIZE
      omega
    exact congrArg BitVec.toNat (if_neg hbehind)
  -- the account commitment of the first slot
  have hnone : readHash unreducedData.content 136 = none := by
    rw [readHash, bytes32ToHash, if_neg]
    intro hall
    have hfirst := hall 0
    have hones : ∀ off ≤ 28, bigEndian 8
        (fun k => (byteOf unreducedData.content (136 + off + k)).toNat) 4 = 2 ^ 32 - 1 := by
      intro off hoff
      have hsame : ∀ k < 4, (byteOf unreducedData.content (136 + off + k)).toNat = 255 := by
        intro k hk
        rw [Nat.add_assoc]
        exact hbyte (off + k) (by omega)
      exact bigEndian_congr hsame
    rw [fromBeBytes_readGlB32 (by rw [hlength]; decide), Nat.add_assoc 136, hones _ (by simp),
      hones _ (by simp)] at hfirst
    exact absurd hfirst (by decide)
  have hparse : parsePreimage .transaction unreducedData.content = none := by
    obtain ⟨rest, hrest⟩ : ∃ rest,
        (List.range PRIV_TX_BATCH_SIZE).flatMap txCommitmentPlaces = (136, 0) :: rest := ⟨_, rfl⟩
    rw [parsePreimage, parseTxPreimage, readCommitments, hrest, List.mapM_cons, hnone]
    rfl
  unfold applyPreimage
  rw [if_neg (by rw [hlength]; exact lt_irrefl _), hparse]

theorem applyPreimage_headerData (s : StateSyncState) :
    applyPreimage .transaction headerData.content 1 s = .error .preimageTooShort := by
  unfold applyPreimage
  rw [if_pos (by rw [length_content]; decide)]

def assignCall : Call := ⟨⟨1, 0⟩, .assignSubpoolOwner 1 5⟩

def updateCall : Call :=
  ⟨⟨5, 0⟩, .updateSubpoolRoot 1 (BitVec.allOnes 256)
    (List.replicate Circuit.MAIN_POOL_CONFIG_DEPTH 0)⟩

/-- A subpool whose owner sets a root that is not a digest. -/
def rootCalls : List Call := [assignCall, updateCall]

theorem rootCalls_logs :
    (firstBlock rootCalls).logs 1 = [.subpoolRootUpdated (BitVec.allOnes 256)] := by
  have hruns : (Contract.step sampleEnv assignCall sampleChain.deployed >>=
      Contract.step sampleEnv updateCall).toBool = true := by decide +kernel
  cases hassign : Contract.step sampleEnv assignCall sampleChain.deployed with
  | error e =>
    rw [hassign] at hruns
    cases hruns
  | ok s =>
    rw [hassign] at hruns
    cases hupdate : Contract.step sampleEnv updateCall s with
    | error e =>
      rw [ok_bind, hupdate] at hruns
      cases hruns
    | ok s' =>
      have hfirst : emitStep (firstBlock rootCalls).env assignCall (sampleChain.deployed, []) =
          .ok (s, []) := emitStep_ok hassign
      have hsecond : emitStep (firstBlock rootCalls).env updateCall (s, []) =
          .ok (s', [.subpoolRootUpdated (BitVec.allOnes 256)]) := emitStep_ok hupdate
      have hcalls : (firstBlock rootCalls).blocks 1 = [] ++ [assignCall] ++ [updateCall] := rfl
      rw [Chain.logs, firstBlock_before, hcalls, run_concat, run_concat, run_nil, attempt_ok hfirst,
        attempt_ok hsecond]

theorem rootCalls_stops {s₀ : StateSyncState} (hlast : s₀.lastSyncedBlock = 0) {poll : Poll}
    (hrpc : ∀ c, poll.rpc c = true) (hhead : 1 ≤ poll.toBlock) :
    pollSync perm (firstBlock rootCalls) 1 poll 0 s₀ = (.error .limbOutOfRange, s₀) := by
  have hlogs := (firstBlock_range hhead).trans rootCalls_logs
  have hupdated : (firstBlock rootCalls).getLogs .subpoolRootUpdated 1 poll.toBlock =
      [.subpoolRootUpdated (BitVec.allOnes 256)] := by
    unfold Chain.getLogs
    rw [hlogs]
    rfl
  have hcheck : checkSubpoolRoot (.subpoolRootUpdated (BitVec.allOnes 256)) s₀ =
      (.error .limbOutOfRange, s₀) := by
    rw [checkSubpoolRoot, if_neg (by decide)]
    rfl
  rw [pollSync_eq (hrpc _) (by rw [hlast]; exact hhead), hlast,
    syncRange_of_noBatches firstBlock_deployed Nat.one_pos hrpc
      (fun kind => congrArg (submissions kind) hlogs) (congrArg provens hlogs),
    if_neg Bool.false_ne_true, hupdated, Program.forEach]
  exact Program.bind_error (Program.bind_error hcheck)

end Sample

end Doxa.StateSync
