import Doxa.Server.Slots
import Doxa.StateSync.Parser

/-!
# What state-sync parses of a batch

On the preimage of a finalized batch the parser finds the output commitments of all slots,
with their positions in the subtree, and the nullifiers of the real ones.
-/

namespace Doxa.StateSync

open Lib Circuit Server

theorem written_byteOf (fields : List F) : Written (byteOf (fields.flatMap fieldBytes)) fields :=
  fun _ _ => rfl

/-- A read that is known. -/
theorem hashAt_of_readHash {preimage : List (BitVec 8)} {off : ℕ} {x : HashOut}
    (h : readHash preimage off = some x) :
    (readHash preimage off).isSome ∧ hashAt preimage off = x :=
  ⟨Option.isSome_iff_exists.mpr ⟨x, h⟩, congrArg (Option.getD · 0) h⟩

/-! ## Private transactions -/

section Tx

variable {root : HashOut} {proofs : List (List F)}

/-- What state-sync adds for a batch of private transactions. -/
def txEntries (proofs : List (List F)) : ParsedBatch where
  commitments := (List.range PRIV_TX_BATCH_SIZE).flatMap fun s =>
    let t := TxCircuitPublicTargets.fromPis (slotPis proofs s)
    (t.accoutComm, s * 8) ::
      (List.finRange Circuit.NOTE_BATCH).map fun j => (t.onotesComm j, s * 8 + j.val + 1)
  nullifiers := ((List.range PRIV_TX_BATCH_SIZE).filter fun s =>
    (TxCircuitPublicTargets.fromPis (slotPis proofs s)).notFakeTx ≠ 0).flatMap fun s =>
      let t := TxCircuitPublicTargets.fromPis (slotPis proofs s)
      t.accinNull :: List.ofFn t.inotesNull

theorem tx_length (h : IsTxBatch proofs) :
    (preimageBytes root proofs).length = TX_PREIMAGE_LEN := by
  rw [preimageBytes, flatMap_fieldBytes_length, h.fields_length]
  rfl

theorem tx_readGlBool (h : IsTxBatch proofs) {s : ℕ} (hs : s < 64) :
    readGlBool (preimageBytes root proofs) (txSlotOff s) =
      decide ((TxCircuitPublicTargets.fromPis (slotPis proofs s)).notFakeTx ≠ 0) := by
  have hlength : (slotPis proofs s).length = 73 := h.pis_length _ (h.slot_mem hs)
  have hbytes : (preimageBytes root proofs).length = 33376 := tx_length h
  have hoff : txSlotOff s = 96 + s * 520 := rfl
  refine readGlBool_fieldAt ?_ (by omega)
  exact (h.slotAt (written_byteOf _) hs).field (i := 8) le_rfl (by omega)

variable (root) in
/-- A digest of slot `s`. -/
theorem tx_readHash (h : IsTxBatch proofs) {s i : ℕ} (hs : s < 64) (hi : 8 ≤ i)
    (hn : i + 4 ≤ 73) : readHash (preimageBytes root proofs) (txSlotOff s + 8 * (i - 8)) =
      some (fieldsOf (slotPis proofs s) i 4) := by
  have hlength : (slotPis proofs s).length = 73 := h.pis_length _ (h.slot_mem hs)
  have hbytes : (preimageBytes root proofs).length = 33376 := tx_length h
  have hoff : txSlotOff s = 96 + s * 520 := rfl
  refine readHash_fieldsAt ?_ (by omega)
  exact (h.slotAt (written_byteOf _) hs).fields hi (by omega)

variable (root) in
/-- The digests of the seven notes of slot `s`, from public input `i` on. -/
theorem tx_readNote (h : IsTxBatch proofs) {s i j : ℕ} (hs : s < 64) (hi : 8 ≤ i)
    (hn : i + 28 ≤ 73) (hj : j < 7) :
    readHash (preimageBytes root proofs) (txSlotOff s + 8 * (i - 8) + j * 32) =
      some (fieldsOf (slotPis proofs s) (i + j * 4) 4) := by
  have hread := tx_readHash root h hs (i := i + j * 4) (by omega) (by omega)
  rwa [show txSlotOff s + 8 * (i + j * 4 - 8) = txSlotOff s + 8 * (i - 8) + j * 32 by omega]
    at hread

/-- The digests at the places of the commitments of slot `s`. -/
theorem tx_commitments (h : IsTxBatch proofs) {s : ℕ} (hs : s < 64) :
    (∀ place ∈ txCommitmentPlaces s, (readHash (preimageBytes root proofs) place.1).isSome) ∧
    (txCommitmentPlaces s).map (fun place => (hashAt (preimageBytes root proofs) place.1, place.2)) =
      ((TxCircuitPublicTargets.fromPis (slotPis proofs s)).accoutComm, s * 8) ::
        (List.finRange Circuit.NOTE_BATCH).map fun j =>
          ((TxCircuitPublicTargets.fromPis (slotPis proofs s)).onotesComm j, s * 8 + j.val + 1) := by
  obtain ⟨hsome, haccount⟩ :=
    hashAt_of_readHash (tx_readHash root h hs (i := 13) (by decide) (by decide))
  have hnote : ∀ j < 7, _ := fun j hj => hashAt_of_readHash
    (tx_readNote root h hs (i := 45) (j := j) (by decide) (by decide) hj)
  constructor
  · intro place hplace
    rcases List.mem_cons.mp hplace with rfl | hplace
    · exact hsome
    · obtain ⟨j, hj, rfl⟩ := List.mem_map.mp hplace
      exact (hnote j (List.mem_range.mp hj)).1
  · have hrange : List.range NOTE_BATCH = (List.finRange Circuit.NOTE_BATCH).map Fin.val :=
      List.map_coe_finRange_eq_range.symm
    rw [txCommitmentPlaces, List.map_cons, List.map_map, hrange, List.map_map]
    refine congrArg₂ List.cons (congrArg (·, s * 8) haccount) (List.map_congr_left fun j _ => ?_)
    refine congrArg (·, s * 8 + j.val + 1) ((hnote j.val j.isLt).2.trans ?_)
    exact congrArg (fieldsOf (slotPis proofs s) · 4) (Nat.add_assoc 17 28 (j.val * 4))

/-- The digests at the places of the nullifiers of slot `s`. -/
theorem tx_nullifiers (h : IsTxBatch proofs) {s : ℕ} (hs : s < 64) :
    (∀ off ∈ txNullifierOffs s, (readHash (preimageBytes root proofs) off).isSome) ∧
    (txNullifierOffs s).map (hashAt (preimageBytes root proofs)) =
      (TxCircuitPublicTargets.fromPis (slotPis proofs s)).accinNull ::
        List.ofFn (TxCircuitPublicTargets.fromPis (slotPis proofs s)).inotesNull := by
  obtain ⟨hsome, haccount⟩ :=
    hashAt_of_readHash (tx_readHash root h hs (i := 9) (by decide) (by decide))
  have hnote : ∀ j < 7, _ := fun j hj => hashAt_of_readHash
    (tx_readNote root h hs (i := 17) (j := j) (by decide) (by decide) hj)
  constructor
  · intro off hoff
    rcases List.mem_cons.mp hoff with rfl | hoff
    · exact hsome
    · obtain ⟨j, hj, rfl⟩ := List.mem_map.mp hoff
      exact (hnote j (List.mem_range.mp hj)).1
  · have hrange : List.range NOTE_BATCH = (List.finRange Circuit.NOTE_BATCH).map Fin.val :=
      List.map_coe_finRange_eq_range.symm
    rw [txNullifierOffs, List.map_cons, List.map_map, hrange, List.map_map, List.ofFn_eq_map]
    refine congrArg₂ List.cons haccount (List.map_congr_left fun j _ => ?_)
    exact (hnote j.val j.isLt).2

/-- State-sync parses every slot of the batch. -/
theorem parse_tx (h : IsTxBatch proofs) :
    parseTxPreimage (preimageBytes root proofs) = some (txEntries proofs) := by
  have hflags : ((List.range PRIV_TX_BATCH_SIZE).filter fun s =>
      readGlBool (preimageBytes root proofs) (txSlotOff s)) =
        (List.range PRIV_TX_BATCH_SIZE).filter fun s =>
          (TxCircuitPublicTargets.fromPis (slotPis proofs s)).notFakeTx ≠ 0 :=
    List.filter_congr fun s hs => tx_readGlBool h (List.mem_range.mp hs)
  have hcommitments : readCommitments (preimageBytes root proofs)
      ((List.range PRIV_TX_BATCH_SIZE).flatMap txCommitmentPlaces) =
        some (txEntries proofs).commitments := by
    rw [readCommitments_eq, List.map_flatMap]
    · exact congrArg some
        (List.flatMap_congr fun s hs => (tx_commitments h (List.mem_range.mp hs)).2)
    · intro place hplace
      obtain ⟨s, hs, hplace⟩ := List.mem_flatMap.mp hplace
      exact (tx_commitments h (List.mem_range.mp hs)).1 place hplace
  have hnullifiers : (((List.range PRIV_TX_BATCH_SIZE).filter fun s =>
      (TxCircuitPublicTargets.fromPis (slotPis proofs s)).notFakeTx ≠ 0).flatMap
        txNullifierOffs).mapM (readHash (preimageBytes root proofs)) =
          some (txEntries proofs).nullifiers := by
    have hlt : ∀ s ∈ (List.range PRIV_TX_BATCH_SIZE).filter fun s =>
        (TxCircuitPublicTargets.fromPis (slotPis proofs s)).notFakeTx ≠ 0, s < 64 :=
      fun s hs => List.mem_range.mp (List.mem_filter.mp hs).1
    rw [mapM_readHash, List.map_flatMap]
    · exact congrArg some (List.flatMap_congr fun s hs => (tx_nullifiers h (hlt s hs)).2)
    · intro off hoff
      obtain ⟨s, hs, hoff⟩ := List.mem_flatMap.mp hoff
      exact (tx_nullifiers h (hlt s hs)).1 off hoff
  rw [parseTxPreimage, hcommitments, hflags, hnullifiers]
  rfl

end Tx

/-! ## Bridge transactions -/

section Bridge

variable {root : HashOut} {ws ds : List (List F)}

/-- What state-sync adds for a batch of bridge transactions. -/
def bridgeEntries (ws ds : List (List F)) : ParsedBatch where
  commitments :=
    ((List.range BRIDGE_TX_HALF_SIZE).map fun s =>
      ((WithdrawTxPublicTargets.fromPis (slotPis ws s)).accoutComm, s)) ++
    (List.range BRIDGE_TX_HALF_SIZE).map fun s =>
      ((DepositTxPublicTargets.fromPis (slotPis ds s)).accoutComm, 256 + s)
  nullifiers :=
    (((List.range BRIDGE_TX_HALF_SIZE).filter fun s =>
      (WithdrawTxPublicTargets.fromPis (slotPis ws s)).notFakeTx ≠ 0).map fun s =>
        (WithdrawTxPublicTargets.fromPis (slotPis ws s)).accinNull) ++
    ((List.range BRIDGE_TX_HALF_SIZE).filter fun s =>
      (DepositTxPublicTargets.fromPis (slotPis ds s)).notFakeTx ≠ 0).map fun s =>
        (DepositTxPublicTargets.fromPis (slotPis ds s)).accinNull

theorem bridge_length (h : IsBridgeBatch ws ds) :
    (preimageBytes root (ws ++ ds)).length = BRIDGE_TX_PREIMAGE_LEN := by
  rw [preimageBytes, flatMap_fieldBytes_length, h.fields_length]
  rfl

variable (root) in
/-- What the parser reads of withdrawal `s`. -/
theorem bridge_readWithdraw (h : IsBridgeBatch ws ds) {s : ℕ} (hs : s < 256) :
    readGlBool (preimageBytes root (ws ++ ds)) (wSlotOff s) =
        decide ((WithdrawTxPublicTargets.fromPis (slotPis ws s)).notFakeTx ≠ 0) ∧
      readHash (preimageBytes root (ws ++ ds)) (wSlotOff s + W_ACCIN_NULL_OFF) =
        some (WithdrawTxPublicTargets.fromPis (slotPis ws s)).accinNull ∧
      readHash (preimageBytes root (ws ++ ds)) (wSlotOff s + W_ACCOUT_COMM_OFF) =
        some (WithdrawTxPublicTargets.fromPis (slotPis ws s)).accoutComm := by
  have hlength : (slotPis ws s).length = 85 := h.ws_pis _ (h.w_mem hs)
  have hbytes : (preimageBytes root (ws ++ ds)).length = 213088 := bridge_length h
  have hat := h.withdrawAt (written_byteOf (preimageFields root (ws ++ ds))) hs
  have hoff : wSlotOff s = 96 + s * 616 := rfl
  have hnull : W_ACCIN_NULL_OFF = 8 := rfl
  have hcomm : W_ACCOUT_COMM_OFF = 40 := rfl
  refine ⟨?_, ?_, ?_⟩
  · exact readGlBool_fieldAt (hat.field (i := 8) le_rfl (by omega)) (by omega)
  · exact readHash_fieldsAt (hat.fields (i := 9) (n := 4) (by decide) (by omega)) (by omega)
  · exact readHash_fieldsAt (hat.fields (i := 13) (n := 4) (by decide) (by omega)) (by omega)

variable (root) in
/-- What the parser reads of deposit `s`. -/
theorem bridge_readDeposit (h : IsBridgeBatch ws ds) {s : ℕ} (hs : s < 256) :
    readGlBool (preimageBytes root (ws ++ ds)) (dSlotOff s) =
        decide ((DepositTxPublicTargets.fromPis (slotPis ds s)).notFakeTx ≠ 0) ∧
      readHash (preimageBytes root (ws ++ ds)) (dSlotOff s + D_ACCIN_NULL_OFF) =
        some (DepositTxPublicTargets.fromPis (slotPis ds s)).accinNull ∧
      readHash (preimageBytes root (ws ++ ds)) (dSlotOff s + D_ACCOUT_COMM_OFF) =
        some (DepositTxPublicTargets.fromPis (slotPis ds s)).accoutComm := by
  have hlength : (slotPis ds s).length = 35 := h.ds_pis _ (h.d_mem hs)
  have hbytes : (preimageBytes root (ws ++ ds)).length = 213088 := bridge_length h
  have hat := h.depositAt (written_byteOf (preimageFields root (ws ++ ds))) hs
  have hoff : dSlotOff s = 157792 + s * 216 := rfl
  have hnull : D_ACCIN_NULL_OFF = 8 := rfl
  have hcomm : D_ACCOUT_COMM_OFF = 40 := rfl
  refine ⟨?_, ?_, ?_⟩
  · exact readGlBool_fieldAt (hat.field (i := 8) le_rfl (by omega)) (by omega)
  · exact readHash_fieldsAt (hat.fields (i := 9) (n := 4) (by decide) (by omega)) (by omega)
  · exact readHash_fieldsAt (hat.fields (i := 13) (n := 4) (by decide) (by omega)) (by omega)

/-- The nullifiers of some withdrawals, then of some deposits. -/
theorem bridge_nullifiers (h : IsBridgeBatch ws ds) {xs ys : List ℕ} (hxs : ∀ s ∈ xs, s < 256)
    (hys : ∀ s ∈ ys, s < 256) :
    ((xs.map fun s => wSlotOff s + W_ACCIN_NULL_OFF) ++
        ys.map fun s => dSlotOff s + D_ACCIN_NULL_OFF).mapM
        (readHash (preimageBytes root (ws ++ ds))) =
      some ((xs.map fun s => (WithdrawTxPublicTargets.fromPis (slotPis ws s)).accinNull) ++
        ys.map fun s => (DepositTxPublicTargets.fromPis (slotPis ds s)).accinNull) := by
  have hw : ∀ s ∈ xs, _ := fun s hs =>
    hashAt_of_readHash (bridge_readWithdraw root h (hxs s hs)).2.1
  have hd : ∀ s ∈ ys, _ := fun s hs =>
    hashAt_of_readHash (bridge_readDeposit root h (hys s hs)).2.1
  have hw' := List.map_congr_left fun s hs => (hw s hs).2
  have hd' := List.map_congr_left fun s hs => (hd s hs).2
  rw [mapM_readHash, List.map_append, List.map_map, List.map_map]
  · simp only [Function.comp_def]
    rw [hw', hd']
  · intro off hoff
    rcases List.mem_append.mp hoff with hoff | hoff
    · obtain ⟨s, hs, rfl⟩ := List.mem_map.mp hoff
      exact (hw s hs).1
    · obtain ⟨s, hs, rfl⟩ := List.mem_map.mp hoff
      exact (hd s hs).1

theorem bridge_commitments (h : IsBridgeBatch ws ds) :
    readCommitments (preimageBytes root (ws ++ ds))
      (((List.range BRIDGE_TX_HALF_SIZE).map fun s => (wSlotOff s + W_ACCOUT_COMM_OFF, s)) ++
        (List.range BRIDGE_TX_HALF_SIZE).map fun s => (dSlotOff s + D_ACCOUT_COMM_OFF, 256 + s)) =
      some (bridgeEntries ws ds).commitments := by
  have hw : ∀ s ∈ List.range BRIDGE_TX_HALF_SIZE, _ := fun s hs =>
    hashAt_of_readHash (bridge_readWithdraw root h (List.mem_range.mp hs)).2.2
  have hd : ∀ s ∈ List.range BRIDGE_TX_HALF_SIZE, _ := fun s hs =>
    hashAt_of_readHash (bridge_readDeposit root h (List.mem_range.mp hs)).2.2
  rw [readCommitments_eq, List.map_append, List.map_map, List.map_map]
  · refine congrArg some (congrArg₂ (· ++ ·) (List.map_congr_left fun s hs => ?_)
      (List.map_congr_left fun s hs => ?_))
    · exact congrArg (·, s) (hw s hs).2
    · exact congrArg (·, 256 + s) (hd s hs).2
  · intro place hplace
    rcases List.mem_append.mp hplace with hplace | hplace
    · obtain ⟨s, hs, rfl⟩ := List.mem_map.mp hplace
      exact (hw s hs).1
    · obtain ⟨s, hs, rfl⟩ := List.mem_map.mp hplace
      exact (hd s hs).1

/-- State-sync parses every slot of the batch. -/
theorem parse_bridge (h : IsBridgeBatch ws ds) :
    parseBridgePreimage (preimageBytes root (ws ++ ds)) = some (bridgeEntries ws ds) := by
  have hwflags : ((List.range BRIDGE_TX_HALF_SIZE).filter fun s =>
      readGlBool (preimageBytes root (ws ++ ds)) (wSlotOff s)) =
        (List.range BRIDGE_TX_HALF_SIZE).filter fun s =>
          (WithdrawTxPublicTargets.fromPis (slotPis ws s)).notFakeTx ≠ 0 :=
    List.filter_congr fun s hs => (bridge_readWithdraw root h (List.mem_range.mp hs)).1
  have hdflags : ((List.range BRIDGE_TX_HALF_SIZE).filter fun s =>
      readGlBool (preimageBytes root (ws ++ ds)) (dSlotOff s)) =
        (List.range BRIDGE_TX_HALF_SIZE).filter fun s =>
          (DepositTxPublicTargets.fromPis (slotPis ds s)).notFakeTx ≠ 0 :=
    List.filter_congr fun s hs => (bridge_readDeposit root h (List.mem_range.mp hs)).1
  have hlt : ∀ p : ℕ → Bool, ∀ s ∈ (List.range BRIDGE_TX_HALF_SIZE).filter p, s < 256 :=
    fun p s hs => List.mem_range.mp (List.mem_filter.mp hs).1
  rw [parseBridgePreimage, bridge_commitments h, hwflags, hdflags,
    bridge_nullifiers h (hlt _) (hlt _)]
  rfl

end Bridge

end Doxa.StateSync
