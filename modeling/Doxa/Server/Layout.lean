import Doxa.Circuit.PreimageWords
import Doxa.Contract.Reads
import Doxa.StateSync.Entries

/-!
# One preimage layout

The preimage of a finalized batch is read by the contract, parsed by state-sync and hashed
in a super circuit. All three find the public inputs of every slot, in the same order: the
contract and the parser at their own offsets, the circuit as the words of its targets.
-/

namespace Doxa.Server

open Lib Circuit

variable {perm : State → State}

/-! ## The words of the circuits -/

/-- The output commitments of a registered private transaction, as a family. -/
theorem privOutputCommitments_register (t : TxCircuitPublicTargets) :
    privOutputCommitments t.register = List.ofFn t.outputCommitments := by
  have hread := TxCircuitPublicTargets.fromPis_register t
  have haccount : accoutCommitment t.register = t.accoutComm :=
    congrArg TxCircuitPublicTargets.accoutComm hread
  have hnote : ∀ i : Fin NOTE_BATCH, fieldsOf t.register (45 + i.val * 4) 4 = t.onotesComm i := by
    intro i
    have hi := congrFun (congrArg TxCircuitPublicTargets.onotesComm hread) i
    rw [← hi]
    exact congrArg (fieldsOf t.register · 4) (Nat.add_assoc 17 28 (i.val * 4))
  rw [privOutputCommitments, haccount, funext hnote]
  exact (List.ofFn_succ (n := NOTE_BATCH) (f := t.outputCommitments)).symm

theorem batchCommonPis_shared (root config accinNull accoutComm : HashOut) (notFakeTx : F)
    (ys : List F) : batchCommonPis (sharedPis root config notFakeTx accinNull accoutComm ++ ys) =
      List.ofFn root ++ List.ofFn config := sharedPis_take root config notFakeTx accinNull accoutComm ys

theorem slotPis_ofFn {n : ℕ} (f : Fin n → List F) (s : Fin n) : slotPis (List.ofFn f) s.val = f s := by
  rw [slotPis, List.getD_eq_getElem?_getD, List.getElem?_ofFn, dif_pos s.isLt, Option.getD_some]

section Tx

variable {t : PrivTxSuperTargets}

/-- The leaves of the subtree are the output commitments of the batch. -/
theorem privTx_leaves (ht : t.Satisfied perm) :
    List.ofFn t.sr.leaves =
      (List.ofFn fun s => (t.pis perm s).register).flatMap privOutputCommitments := by
  have hwidth : ∀ p ∈ List.ofFn fun s => (t.pis perm s).register,
      (privOutputCommitments p).length = 8 := fun p _ => by
    rw [privOutputCommitments, List.length_cons, List.length_ofFn]
  have hlength : ((List.ofFn fun s => (t.pis perm s).register).flatMap
      privOutputCommitments).length = 512 := by
    rw [length_flatMap_record hwidth, List.length_ofFn]
    rfl
  apply List.ext_getElem?
  intro n
  have hsize : SUBTREE_BATCHSIZE = 512 := rfl
  by_cases hn : n < SUBTREE_BATCHSIZE
  · -- position `n` is output `n % 8` of slot `n / 8`
    have hs : n / 8 < PRIV_TX_BATCH_SIZE := by
      show n / 8 < 64
      omega
    have hj : n % 8 < 1 + NOTE_BATCH := by
      show n % 8 < 8
      omega
    have hsplit : n / 8 * 8 + n % 8 = n := by omega
    have hrecord := getElem?_flatMap_record hwidth (s := n / 8) hj
    rw [hsplit, List.getElem?_ofFn, dif_pos hs, Option.bind_some, privOutputCommitments_register,
      List.getElem?_ofFn, dif_pos hj, ht.leaves] at hrecord
    rw [hrecord, List.getElem?_ofFn, dif_pos hn]
    exact congrArg (fun i => some (t.sr.leaves i)) (Fin.ext hsplit.symm)
  · rw [List.getElem?_eq_none (by rw [List.length_ofFn]; omega),
      List.getElem?_eq_none (by rw [hlength]; omega)]

/-- The circuit hashes the elements of the preimage. -/
theorem privTx_preimageTargets (ht : t.Satisfied perm) {proofs : List (List F)}
    (hslots : proofs = List.ofFn fun s => (t.pis perm s).register) :
    t.preimageTargets perm =
      preimageFields (computeRootNative perm (proofs.flatMap privOutputCommitments)) proofs := by
  have hroot : computeRootNative perm (proofs.flatMap privOutputCommitments) = t.sr.root := by
    rw [computeRootNative_eq, hslots, ← privTx_leaves ht]
    exact ht.sr
  have hfirst : slotPis proofs 0 = (t.pis perm 0).register := by
    rw [hslots]
    exact slotPis_ofFn (fun s => (t.pis perm s).register) 0
  have hunique : proofs.flatMap batchUniquePis =
      (List.ofFn (t.pis perm)).flatMap TxCircuitPublicTargets.uniquePiTargets := by
    rw [hslots, List.flatMap_def, List.flatMap_def, List.map_ofFn, List.map_ofFn]
    rfl
  rw [hroot, preimageFields_eq, hfirst, hunique, headerFields, TxCircuitPublicTargets.register,
    batchCommonPis_shared]
  rfl

end Tx

section Bridge

variable {t : BridgeTxSuperTargets}

variable (perm t) in
/-- The public inputs of the withdrawals. -/
def withdrawRegisters : List (List F) :=
  List.ofFn fun s => ((t.pairs s).w.publicTargets perm).register

variable (perm t) in
/-- The public inputs of the deposits. -/
def depositRegisters : List (List F) :=
  List.ofFn fun s => ((t.pairs s).d.publicTargets perm).register

theorem accoutCommitment_withdraw (w : WithdrawTxPublicTargets) :
    accoutCommitment w.register = w.accoutComm :=
  congrArg WithdrawTxPublicTargets.accoutComm (WithdrawTxPublicTargets.fromPis_register w)

theorem accoutCommitment_deposit (d : DepositTxPublicTargets) :
    accoutCommitment d.register = d.accoutComm :=
  congrArg DepositTxPublicTargets.accoutComm (DepositTxPublicTargets.fromPis_register d)

theorem flatMap_bridgeOutputCommitments (proofs : List (List F)) :
    proofs.flatMap bridgeOutputCommitments = proofs.map accoutCommitment := by
  induction proofs with
  | nil => rfl
  | cons p proofs ih => rw [List.flatMap_cons, ih, List.map_cons, bridgeOutputCommitments,
      List.singleton_append]

/-- The leaves of the subtree are the output commitments of the batch. -/
theorem bridgeTx_leaves (ht : t.Satisfied perm) :
    List.ofFn t.sr.leaves =
      (withdrawRegisters perm t ++ depositRegisters perm t).flatMap bridgeOutputCommitments := by
  have hw : (withdrawRegisters perm t).map accoutCommitment =
      List.ofFn fun s : Fin HALF => t.sr.leaves (Fin.castAdd HALF s) := by
    rw [withdrawRegisters, List.map_ofFn]
    refine congrArg List.ofFn (funext fun s => ?_)
    exact (accoutCommitment_withdraw _).trans (ht.w_leaves s)
  have hd : (depositRegisters perm t).map accoutCommitment =
      List.ofFn fun s : Fin HALF => t.sr.leaves (Fin.natAdd HALF s) := by
    rw [depositRegisters, List.map_ofFn]
    refine congrArg List.ofFn (funext fun s => ?_)
    exact (accoutCommitment_deposit _).trans (ht.d_leaves s)
  rw [flatMap_bridgeOutputCommitments, List.map_append, hw, hd]
  exact List.ofFn_add (m := HALF) (n := HALF) (f := t.sr.leaves)

/-- The circuit hashes the elements of the preimage. -/
theorem bridgeTx_preimageTargets (ht : t.Satisfied perm) {proofs : List (List F)}
    (hslots : proofs = withdrawRegisters perm t ++ depositRegisters perm t) :
    t.preimageTargets perm =
      preimageFields (computeRootNative perm (proofs.flatMap bridgeOutputCommitments)) proofs := by
  have hroot : computeRootNative perm (proofs.flatMap bridgeOutputCommitments) = t.sr.root := by
    rw [computeRootNative_eq, hslots, ← bridgeTx_leaves ht]
    exact ht.sr
  have hfirst : slotPis proofs 0 = ((t.pairs 0).w.publicTargets perm).register := by
    have hlength : 0 < (withdrawRegisters perm t).length := by
      rw [withdrawRegisters, List.length_ofFn]
      decide
    rw [hslots, slotPis, List.getD_append _ _ _ _ hlength]
    exact slotPis_ofFn (fun s => ((t.pairs s).w.publicTargets perm).register) 0
  have hunique : proofs.flatMap batchUniquePis =
      (List.ofFn fun s => (t.pairs s).w.publicTargets perm).flatMap
          WithdrawTxPublicTargets.uniquePiTargets ++
        (List.ofFn fun s => (t.pairs s).d.publicTargets perm).flatMap
          DepositTxPublicTargets.uniquePiTargets := by
    rw [hslots, List.flatMap_append, withdrawRegisters, depositRegisters]
    simp only [List.flatMap_def, List.map_ofFn]
    rfl
  rw [hroot, preimageFields_eq, hfirst, hunique, headerFields, WithdrawTxPublicTargets.register,
    batchCommonPis_shared]
  rfl

end Bridge

/-! ## The three readings -/

section Readings

variable (perm) (root : HashOut) (words : List (BitVec 32)) (bytes : List (BitVec 8))

/-- The readings of a batch of private transactions with the public inputs `proofs`. -/
structure TxLayout (proofs : List (List F)) : Prop where
  contract : ∀ data : Contract.Bytes, data.content = bytes → ∀ s < PRIV_TX_BATCH_SIZE,
    Contract.ReadsHeader data root (slotPis proofs s) ∧
      Contract.ReadsTx data s (TxCircuitPublicTargets.fromPis (slotPis proofs s))
  parser : bytes.length = StateSync.TX_PREIMAGE_LEN ∧
    StateSync.parseTxPreimage bytes = some (StateSync.txEntries proofs)
  circuit : ∀ (t : PrivTxSuperTargets) (pairs : List U32PairTargets), t.Satisfied perm →
    (proofs = List.ofFn fun s => (t.pis perm s).register) →
    FieldsToU32Words (t.preimageTargets perm) pairs →
    u32Words pairs = words.map fun w => (w.toNat : F)

/-- The readings of a batch of bridge transactions with the public inputs `ws` of the
withdrawals and `ds` of the deposits. -/
structure BridgeLayout (ws ds : List (List F)) : Prop where
  header : ∀ data : Contract.Bytes, data.content = bytes → ∀ pis ∈ ws ++ ds,
    Contract.ReadsHeader data root pis
  withdraw : ∀ data : Contract.Bytes, data.content = bytes → ∀ s < HALF,
    Contract.ReadsWithdraw data s (WithdrawTxPublicTargets.fromPis (slotPis ws s)) ∧
      (Contract.U32Withdraw (WithdrawTxPublicTargets.fromPis (slotPis ws s)) →
        Contract.ExactWithdraw data s (WithdrawTxPublicTargets.fromPis (slotPis ws s)))
  deposit : ∀ data : Contract.Bytes, data.content = bytes → ∀ s < HALF,
    Contract.ReadsDeposit data s (DepositTxPublicTargets.fromPis (slotPis ds s)) ∧
      (Contract.U32Deposit (DepositTxPublicTargets.fromPis (slotPis ds s)) →
        Contract.ExactDeposit data s (DepositTxPublicTargets.fromPis (slotPis ds s)))
  parser : bytes.length = StateSync.BRIDGE_TX_PREIMAGE_LEN ∧
    StateSync.parseBridgePreimage bytes = some (StateSync.bridgeEntries ws ds)
  circuit : ∀ (t : BridgeTxSuperTargets) (pairs : List U32PairTargets), t.Satisfied perm →
    ws = withdrawRegisters perm t → ds = depositRegisters perm t →
    FieldsToU32Words (t.preimageTargets perm) pairs →
    u32Words pairs = words.map fun w => (w.toNat : F)

end Readings

theorem txLayout {proofs : List (List F)} (h : IsTxBatch proofs) {root : HashOut}
    (hroot : root = computeRootNative perm (proofs.flatMap privOutputCommitments)) :
    TxLayout perm root (pushFields (preimageFields root proofs)) (preimageBytes root proofs)
      proofs where
  contract := by
    intro data hdata s hs
    have hb := Contract.written_content hdata
    exact ⟨Contract.readsHeader (h.headerAt hb hs),
      Contract.readsTx (h.slotAt hb hs) (h.pis_length _ (h.slot_mem hs))⟩
  parser := ⟨StateSync.tx_length h, StateSync.parse_tx h⟩
  circuit := by
    intro t pairs ht hslots hpairs
    rw [privTx_preimageTargets ht hslots, ← hroot] at hpairs
    exact u32Words_eq hpairs

theorem bridgeLayout {ws ds : List (List F)} (h : IsBridgeBatch ws ds) {root : HashOut}
    (hroot : root = computeRootNative perm ((ws ++ ds).flatMap bridgeOutputCommitments)) :
    BridgeLayout perm root (pushFields (preimageFields root (ws ++ ds)))
      (preimageBytes root (ws ++ ds)) ws ds where
  header := by
    intro data hdata pis hpis
    exact Contract.readsHeader (h.headerAt (Contract.written_content hdata) hpis)
  withdraw := by
    intro data hdata s hs
    have hat := h.withdrawAt (Contract.written_content hdata) hs
    have hreads := Contract.readsWithdraw hat (h.ws_pis _ (h.w_mem hs))
    exact ⟨hreads, hreads.exact⟩
  deposit := by
    intro data hdata s hs
    have hat := h.depositAt (Contract.written_content hdata) hs
    have hreads := Contract.readsDeposit hat (h.ds_pis _ (h.d_mem hs))
    exact ⟨hreads, hreads.exact⟩
  parser := ⟨StateSync.bridge_length h, StateSync.parse_bridge h⟩
  circuit := by
    intro t pairs ht hw hd hpairs
    rw [bridgeTx_preimageTargets ht (congrArg₂ (· ++ ·) hw hd), ← hroot] at hpairs
    exact u32Words_eq hpairs

/-! ## Finalized batches -/

/-- A batch of private transactions with a root is a full one. -/
theorem PrivateTxBatch.Inv.isTxBatch {b : PrivateTxBatch} (hI : b.Inv perm) {root : HashOut}
    (hroot : b.batchPoseidonRoot = some root) :
    IsTxBatch b.pis ∧ root = computeRootNative perm (b.pis.flatMap privOutputCommitments) := by
  obtain ⟨hlength, hvalue⟩ := hI.root root hroot
  have hleaves : b.proofs.flatMap PrivTxProof.outputCommitments =
      b.pis.flatMap privOutputCommitments :=
    (List.flatMap_map PrivTxProof.publicInputs privOutputCommitments b.proofs).symm
  refine ⟨⟨?_, ?_, ?_⟩, hleaves ▸ hvalue⟩
  · rw [PrivateTxBatch.pis, List.length_map]
    exact hlength
  · intro p hp
    obtain ⟨proof, -, rfl⟩ := List.mem_map.mp hp
    exact proof.length_eq
  · intro p hp q hq
    obtain ⟨proof, hproof, rfl⟩ := List.mem_map.mp hp
    obtain ⟨other, hother, rfl⟩ := List.mem_map.mp hq
    exact hI.uniform proof hproof other hother

/-- The public inputs of the two halves. -/
def BridgeTxBatch.withdrawPis (b : BridgeTxBatch) : List (List F) :=
  b.withdrawHalf.map BridgeTxProof.pis

def BridgeTxBatch.depositPis (b : BridgeTxBatch) : List (List F) :=
  b.depositHalf.map BridgeTxProof.pis

/-- A batch of bridge transactions with a root is a full one. -/
theorem BridgeTxBatch.Inv.isBridgeBatch {b : BridgeTxBatch} (hI : b.Inv perm) {root : HashOut}
    (hroot : b.batchPoseidonRoot = some root) :
    b.pis = b.withdrawPis ++ b.depositPis ∧ IsBridgeBatch b.withdrawPis b.depositPis ∧
      root = computeRootNative perm
        ((b.withdrawPis ++ b.depositPis).flatMap bridgeOutputCommitments) := by
  obtain ⟨hwlength, hdlength, hproofs, hvalue⟩ := hI.root root hroot
  have hpis : b.pis = b.withdrawPis ++ b.depositPis := by
    rw [BridgeTxBatch.pis, hproofs, List.map_append]
    rfl
  have hleaves : b.finalizedProofs.flatMap BridgeTxProof.outputCommitments =
      b.pis.flatMap bridgeOutputCommitments :=
    (List.flatMap_map BridgeTxProof.pis bridgeOutputCommitments b.finalizedProofs).symm
  refine ⟨hpis, ⟨?_, ?_, ?_, ?_, ?_⟩, hpis ▸ hleaves ▸ hvalue⟩
  · rw [BridgeTxBatch.withdrawPis, List.length_map]
    exact hwlength
  · rw [BridgeTxBatch.depositPis, List.length_map]
    exact hdlength
  · intro p hp
    obtain ⟨proof, hproof, rfl⟩ := List.mem_map.mp hp
    obtain ⟨w, rfl⟩ := hI.withdraws proof hproof
    exact w.length_eq
  · intro p hp
    obtain ⟨proof, hproof, rfl⟩ := List.mem_map.mp hp
    obtain ⟨d, rfl⟩ := hI.deposits proof hproof
    exact d.length_eq
  · have hroots : ∀ p ∈ b.withdrawPis ++ b.depositPis,
        b.commonActRoot = some (actRoot p) ∧ b.commonMainConfigRoot = some (mainpoolConfigRoot p) := by
      intro p hp
      rw [← hpis, BridgeTxBatch.pis, hproofs] at hp
      obtain ⟨proof, hproof, rfl⟩ := List.mem_map.mp hp
      exact hI.roots proof hproof
    intro p hp q hq
    obtain ⟨hact, hconfig⟩ := hroots p hp
    obtain ⟨hact', hconfig'⟩ := hroots q hq
    exact Prod.ext (Option.some.inj (hact.symm.trans hact'))
      (Option.some.inj (hconfig.symm.trans hconfig'))

/-! ## Padding succeeds -/

/-- `batch_poseidon_root` succeeds on a full batch. -/
theorem batchPoseidonRoot_full {leaves : List HashOut} (h : leaves.length = SUBTREE_BATCHSIZE) :
    batchPoseidonRoot perm true leaves = .ok (computeRootNative perm leaves) := by
  apply revertIf_bind_eq_ok.mpr
  refine ⟨Bool.noConfusion, ?_⟩
  apply revertIf_bind_eq_ok.mpr
  exact ⟨not_not_intro h, rfl⟩

theorem PrivTxProof.outputCommitments_length (p : PrivTxProof) : p.outputCommitments.length = 8 := by
  rw [PrivTxProof.outputCommitments, privOutputCommitments, List.length_cons, List.length_ofFn]

/-- A batch that holds something and is not finalized can be, when the prover succeeds. -/
theorem PrivateTxBatch.finalize_isSome {first : PrivTxProof} {rest : List PrivTxProof}
    {prover : PaddingProver PrivTxProof.publicInputs} {p : PrivTxProof}
    (hlength : (first :: rest).length ≤ PRIV_TX_BATCH_SIZE)
    (hp : prover.prove (actRoot first.publicInputs) (mainpoolConfigRoot first.publicInputs) = .ok p) :
    ∃ proofs root, PrivateTxBatch.finalize perm ⟨first :: rest, none⟩ prover =
      .ok ⟨proofs, some root⟩ := by
  have hpadded : ∃ proofs, PrivateTxBatch.padded ⟨first :: rest, none⟩ prover first = .ok proofs ∧
      proofs.length = PRIV_TX_BATCH_SIZE := by
    unfold PrivateTxBatch.padded
    split
    · rw [hp]
      refine ⟨_, rfl, ?_⟩
      rw [List.length_append, List.length_replicate]
      exact Nat.add_sub_cancel' hlength
    · rename_i hfull
      exact ⟨_, rfl, Nat.le_antisymm hlength (Nat.le_of_not_lt hfull)⟩
  obtain ⟨proofs, hpadded, hsize⟩ := hpadded
  have hleaves : (proofs.flatMap PrivTxProof.outputCommitments).length = SUBTREE_BATCHSIZE := by
    rw [length_flatMap_record fun p _ => p.outputCommitments_length, hsize]
    rfl
  refine ⟨proofs, computeRootNative perm (proofs.flatMap PrivTxProof.outputCommitments), ?_⟩
  apply revertIf_bind_eq_ok.mpr
  refine ⟨Bool.noConfusion, ?_⟩
  apply bind_eq_ok.mpr
  refine ⟨proofs, hpadded, bind_eq_ok.mpr ⟨_, ?_, rfl⟩⟩
  rw [hsize]
  exact batchPoseidonRoot_full hleaves

/-- A half that fits is padded to its capacity, when the prover succeeds. -/
theorem BridgeTxBatch.paddedHalf_isOk {half : List BridgeTxProof}
    {padding : Except BatchError BridgeTxProof} {p : BridgeTxProof} (hlength : half.length ≤ HALF)
    (hp : padding = .ok p) :
    ∃ half', BridgeTxBatch.paddedHalf half padding = .ok half' ∧ half'.length = HALF := by
  unfold BridgeTxBatch.paddedHalf
  split
  · rw [hp]
    refine ⟨_, rfl, ?_⟩
    rw [List.length_append, List.length_replicate]
    exact Nat.add_sub_cancel' hlength
  · rename_i hfull
    exact ⟨_, rfl, Nat.le_antisymm hlength (Nat.le_of_not_lt hfull)⟩

/-- A batch that holds something and is not finalized can be, when the provers succeed. -/
theorem BridgeTxBatch.finalize_isSome {b : BridgeTxBatch} {root config : HashOut}
    {pw : PaddingProver WithdrawProof.publicInputs} {pd : PaddingProver DepositProof.publicInputs}
    {w : WithdrawProof} {d : DepositProof} (hempty : b.isEmpty = false)
    (hnone : b.batchPoseidonRoot = none) (hroot : b.commonActRoot = some root)
    (hconfig : b.commonMainConfigRoot = some config) (hwlength : b.withdrawHalf.length ≤ HALF)
    (hdlength : b.depositHalf.length ≤ HALF) (hw : pw.prove root config = .ok w)
    (hd : pd.prove root config = .ok d) :
    ∃ r, (b.finalize perm pw pd).2.batchPoseidonRoot = some r := by
  have hfinal : b.isFinalized = false := by rw [BridgeTxBatch.isFinalized, hnone]; rfl
  obtain ⟨ws, hws, hwsize⟩ := BridgeTxBatch.paddedHalf_isOk hwlength
    (congrArg (Functor.map BridgeTxProof.withdrawTxProof) hw)
  obtain ⟨ds, hds, hdsize⟩ := BridgeTxBatch.paddedHalf_isOk hdlength
    (congrArg (Functor.map BridgeTxProof.depositTxProof) hd)
  have hfull : ∀ b' : BridgeTxBatch, b'.withdrawHalf = ws → b'.depositHalf = ds →
      b'.isFull = true := by
    rintro b' rfl rfl
    rw [BridgeTxBatch.isFull, BridgeTxBatch.isWithdrawFull, BridgeTxBatch.isDepositFull, hwsize,
      hdsize]
    rfl
  have hleaves : ((ws ++ ds).flatMap BridgeTxProof.outputCommitments).length =
      SUBTREE_BATCHSIZE := by
    rw [length_flatMap_record (w := 1) fun p _ => rfl, List.length_append, hwsize, hdsize]
    rfl
  unfold BridgeTxBatch.finalize
  simp only [hempty, hfinal, hroot, hconfig, hws, hds, Bool.false_eq_true, if_false]
  rw [hfull _ rfl rfl, batchPoseidonRoot_full hleaves]
  exact ⟨_, rfl⟩

variable (perm) in
/-- The finalized batches of both kinds have one layout, whatever calls led to them. -/
theorem one_preimage_layout :
    (∀ (ops : List PrivateTxBatch.Op) (b : PrivateTxBatch) (root : HashOut),
      run (PrivateTxBatch.step perm) .new ops = b → b.batchPoseidonRoot = some root →
      ∃ words bytes, piPreimageWords b.commitmentsSubtreeRoot b.pis = .ok words ∧
        piPreimageBytes b.commitmentsSubtreeRoot b.pis = .ok bytes ∧
        TxLayout perm root words bytes b.pis) ∧
    ∀ (ops : List BridgeTxBatch.Op) (b : BridgeTxBatch) (root : HashOut),
      ops.foldl (BridgeTxBatch.step perm) .new = b → b.batchPoseidonRoot = some root →
      ∃ words bytes, piPreimageWords b.commitmentsSubtreeRoot b.pis = .ok words ∧
        piPreimageBytes b.commitmentsSubtreeRoot b.pis = .ok bytes ∧
        BridgeLayout perm root words bytes b.withdrawPis b.depositPis := by
  constructor
  · rintro ops b root rfl hroot
    obtain ⟨hbatch, hvalue⟩ := (PrivateTxBatch.run_inv_new ops).isTxBatch hroot
    rw [PrivateTxBatch.commitmentsSubtreeRoot, hroot]
    exact ⟨_, _, piPreimageWords_ok root _, piPreimageBytes_ok root _, txLayout hbatch hvalue⟩
  · rintro ops b root rfl hroot
    obtain ⟨hpis, hbatch, hvalue⟩ := (BridgeTxBatch.run_inv_new ops).isBridgeBatch hroot
    rw [BridgeTxBatch.commitmentsSubtreeRoot, hroot, hpis]
    exact ⟨_, _, piPreimageWords_ok root _, piPreimageBytes_ok root _, bridgeLayout hbatch hvalue⟩

/-- A prover of empty private transactions. -/
def emptyTxProver : PaddingProver PrivTxProof.publicInputs where
  prove root config := .ok ⟨(⟨root, config, 0, 0, 0, 0, 0⟩ : TxCircuitPublicTargets).register,
    TxCircuitPublicTargets.register_length _⟩
  roots := by
    rintro root config p ⟨⟩
    have hread := TxCircuitPublicTargets.fromPis_register ⟨root, config, 0, 0, 0, 0, 0⟩
    exact Prod.ext (congrArg TxCircuitPublicTargets.stateRoot hread)
      (congrArg TxCircuitPublicTargets.mainpoolConfigRoot hread)

/-- A prover of empty withdrawals. -/
def emptyWithdrawProver : PaddingProver WithdrawProof.publicInputs where
  prove root config := .ok ⟨(⟨0, root, config, 0, 0, 0, 0, 0⟩ : WithdrawTxPublicTargets).register,
    WithdrawTxPublicTargets.register_length _⟩
  roots := by
    rintro root config p ⟨⟩
    have hread := WithdrawTxPublicTargets.fromPis_register ⟨0, root, config, 0, 0, 0, 0, 0⟩
    exact Prod.ext (congrArg WithdrawTxPublicTargets.root hread)
      (congrArg WithdrawTxPublicTargets.mainpoolConfigRoot hread)

/-- A prover of empty deposits. -/
def emptyDepositProver : PaddingProver DepositProof.publicInputs where
  prove root config := .ok ⟨(⟨0, config, root, 0, 0, 0, 0, 0, 0⟩ : DepositTxPublicTargets).register,
    DepositTxPublicTargets.register_length _⟩
  roots := by
    rintro root config p ⟨⟩
    have hread := DepositTxPublicTargets.fromPis_register ⟨0, config, root, 0, 0, 0, 0, 0, 0⟩
    exact Prod.ext (congrArg DepositTxPublicTargets.stateRoot hread)
      (congrArg DepositTxPublicTargets.mainpoolConfigRoot hread)

/-- A private transaction with all public inputs zero. -/
def zeroTx : PrivTxProof := ⟨List.replicate 73 0, List.length_replicate⟩

/-- A withdrawal with all public inputs zero. -/
def zeroWithdraw : BridgeTxProof := .withdrawTxProof ⟨List.replicate 85 0, List.length_replicate⟩

/-- The batch that holds `zeroWithdraw`. -/
def oneWithdraw : BridgeTxBatch where
  withdrawHalf := [zeroWithdraw]
  depositHalf := []
  commonActRoot := some (actRoot zeroWithdraw.pis)
  commonMainConfigRoot := some (mainpoolConfigRoot zeroWithdraw.pis)
  batchPoseidonRoot := none
  finalizedProofs := []

/-- One proof of each kind, and the batches padded from it. -/
theorem one_preimage_layout_padded :
    (∃ b root words bytes,
      run (PrivateTxBatch.step id) .new [.addProof zeroTx, .finalize emptyTxProver] = b ∧
      b.batchPoseidonRoot = some root ∧
      piPreimageWords b.commitmentsSubtreeRoot b.pis = .ok words ∧
      piPreimageBytes b.commitmentsSubtreeRoot b.pis = .ok bytes ∧
      TxLayout id root words bytes b.pis) ∧
    ∃ b root words bytes,
      [.addProof zeroWithdraw, .finalize emptyWithdrawProver emptyDepositProver].foldl
        (BridgeTxBatch.step id) .new = b ∧
      b.batchPoseidonRoot = some root ∧
      piPreimageWords b.commitmentsSubtreeRoot b.pis = .ok words ∧
      piPreimageBytes b.commitmentsSubtreeRoot b.pis = .ok bytes ∧
      BridgeLayout id root words bytes b.withdrawPis b.depositPis := by
  constructor
  · have hfinal : ∃ proofs root, PrivateTxBatch.step id (.finalize emptyTxProver) ⟨[zeroTx], none⟩ =
        .ok ⟨proofs, some root⟩ := PrivateTxBatch.finalize_isSome (by decide) rfl
    obtain ⟨proofs, root, hfinal⟩ := hfinal
    have hadd : PrivateTxBatch.step id (.addProof zeroTx) .new = .ok ⟨[zeroTx], none⟩ := rfl
    have hrun : run (PrivateTxBatch.step id) .new [.addProof zeroTx, .finalize emptyTxProver] =
        ⟨proofs, some root⟩ := by
      rw [run, List.foldl_cons, attempt_ok hadd, List.foldl_cons, attempt_ok hfinal, List.foldl_nil]
    obtain ⟨words, bytes, hlayout⟩ := (one_preimage_layout id).1 _ _ root hrun rfl
    exact ⟨_, root, words, bytes, hrun, rfl, hlayout⟩
  · have hadd : BridgeTxBatch.step id .new (.addProof zeroWithdraw) = oneWithdraw := rfl
    have hlength : oneWithdraw.withdrawHalf.length ≤ HALF ∧ oneWithdraw.depositHalf.length ≤ HALF := by
      decide
    have hfinal : ∃ root, (oneWithdraw.finalize id emptyWithdrawProver
        emptyDepositProver).2.batchPoseidonRoot = some root :=
      BridgeTxBatch.finalize_isSome rfl rfl rfl rfl hlength.1 hlength.2 rfl rfl
    obtain ⟨root, hroot⟩ := hfinal
    have hrun : [.addProof zeroWithdraw, .finalize emptyWithdrawProver emptyDepositProver].foldl
        (BridgeTxBatch.step id) .new =
          (oneWithdraw.finalize id emptyWithdrawProver emptyDepositProver).2 := by
      rw [List.foldl_cons, hadd, List.foldl_cons, List.foldl_nil, BridgeTxBatch.step]
    obtain ⟨words, bytes, hlayout⟩ := (one_preimage_layout id).2 _ _ root hrun hroot
    exact ⟨_, root, words, bytes, hrun, hroot, hlayout⟩

end Doxa.Server
