import Doxa.Server.Batches
import Doxa.Server.SubtreeRoot

/-!
# The life of a batch

The calls of a batch act on it in place: what a call answers and what it leaves behind are
two results. A history is the batch after some calls together with the proofs it accepted, in
order. In every history the slots of a batch, or of a half of it, are the accepted proofs and
then padding, and there is padding only where all slots are taken.
-/

namespace Doxa.Server

open Lib Circuit

variable (perm : State → State)

/-! ## Slots -/

section Slots

variable {α : Type} {capacity : ℕ} {P : α → Prop} {real slots : List α} {x : α}

/-- The slots are `real` and then padding; once there is padding no slot is free. -/
structure Filled (capacity : ℕ) (P : α → Prop) (real slots : List α) : Prop where
  le : slots.length ≤ capacity
  padded : ∃ padding, slots = real ++ padding ∧ (∀ x ∈ padding, P x) ∧
    (padding = [] ∨ slots.length = capacity)

theorem filled_nil : Filled capacity P [] [] := ⟨Nat.zero_le _, [], rfl, by simp, .inl rfl⟩

/-- While a slot is free there is no padding. -/
theorem Filled.eq_of_lt (h : Filled capacity P real slots) (hroom : slots.length < capacity) :
    slots = real := by
  obtain ⟨padding, hslots, -, rfl | hfull⟩ := h.padded
  · rw [hslots, List.append_nil]
  · omega

theorem Filled.push (h : Filled capacity P real slots) (hroom : slots.length < capacity) (x : α) :
    Filled capacity P (real ++ [x]) (slots ++ [x]) := by
  obtain rfl := h.eq_of_lt hroom
  refine ⟨?_, [], (List.append_nil _).symm, by simp, .inl rfl⟩
  rw [List.length_append, List.length_singleton]
  omega

theorem Filled.pad (h : Filled capacity P real slots) (hroom : slots.length < capacity) (hx : P x) :
    Filled capacity P real (slots ++ List.replicate (capacity - slots.length) x) := by
  have hlen : (slots ++ List.replicate (capacity - slots.length) x).length = capacity := by
    rw [List.length_append, List.length_replicate]
    omega
  refine ⟨hlen.le, List.replicate (capacity - slots.length) x, ?_, fun y hy => ?_, .inr hlen⟩
  · rw [h.eq_of_lt hroom]
  · rw [List.eq_of_mem_replicate hy]
    exact hx

theorem Filled.mono {Q : α → Prop} (h : Filled capacity P real slots) (hPQ : ∀ x, P x → Q x) :
    Filled capacity Q real slots := by
  obtain ⟨padding, hslots, hpadding, hfull⟩ := h.padded
  exact ⟨h.le, padding, hslots, fun x hx => hPQ x (hpadding x hx), hfull⟩

end Slots

/-- A batch after some calls, with the proofs they added. -/
structure History (Batch Proof : Type) where
  batch : Batch
  accepted : List Proof

/-- A call that answers `.error` is rejected. -/
def Rejected {α : Type} (answer : Except BatchError α) : Prop := ∃ e, answer = .error e

/-- `batch_poseidon_root` is the root of the leaves. -/
theorem batchPoseidonRoot_native {perm : State → State} {isFull : Bool} {leaves : List HashOut}
    {root : HashOut} (h : batchPoseidonRoot perm isFull leaves = .ok root) :
    isFull = true ∧ SubtreeRootCircuit.computeRootNative perm leaves = some root := by
  have hlen : leaves.length = 2 ^ SUBTREE_DEPTH := by
    by_contra hne
    simp only [batchPoseidonRoot, revertIf_bind_eq_ok] at h
    exact h.2.1 hne
  obtain ⟨hfull, rfl⟩ := batchPoseidonRoot_ok h
  exact ⟨hfull, computeRootNative_rounds hlen⟩

/-! ## Private transactions -/

namespace PrivateTxBatch

section Calls

variable (b : PrivateTxBatch)

/-- `add_proof`: its answer and the batch it leaves. -/
def addProofInPlace (proof : PrivTxProof) : Except BatchError Bool × PrivateTxBatch :=
  if b.isFull then (.error .batchFull, b)
  else if b.isFinalized then (.error .alreadyFinalized, b)
  else if ∃ first ∈ b.proofs.head?, actRoot proof.publicInputs ≠ actRoot first.publicInputs then
    (.error .actRootMismatch, b)
  else if ∃ first ∈ b.proofs.head?,
      mainpoolConfigRoot proof.publicInputs ≠ mainpoolConfigRoot first.publicInputs then
    (.error .mainpoolConfigRootMismatch, b)
  else
    let b := { b with proofs := b.proofs ++ [proof] }
    (.ok b.isFull, b)

/-- `finalize`: the padding stays when the root cannot be computed. -/
def finalizeInPlace (prover : PaddingProver PrivTxProof.publicInputs) :
    Except BatchError Unit × PrivateTxBatch :=
  match b.proofs with
  | [] => (.error .batchEmpty, b)
  | first :: _ =>
    if b.isFinalized then (.error .alreadyFinalized, b)
    else
      match b.padded prover first with
      | .error e => (.error e, b)
      | .ok proofs =>
        let b := { b with proofs }
        match Server.batchPoseidonRoot perm b.isFull
            (b.proofs.flatMap PrivTxProof.outputCommitments) with
        | .error e => (.error e, b)
        | .ok root => (.ok (), { b with batchPoseidonRoot := some root })

/-- One call in a history. -/
def record (h : History PrivateTxBatch PrivTxProof) : Op → History PrivateTxBatch PrivTxProof
  | .addProof proof =>
    let (answer, b) := h.batch.addProofInPlace proof
    ⟨b, if answer.isOk then h.accepted ++ [proof] else h.accepted⟩
  | .finalize prover => ⟨(h.batch.finalizeInPlace perm prover).2, h.accepted⟩

/-- The history of a new batch. -/
def history (ops : List Op) : History PrivateTxBatch PrivTxProof :=
  ops.foldl (record perm) ⟨new, []⟩

end Calls

/-- `p` is padding that a call of `finalize` made for these roots. -/
def IsPadding (ops : List Op) (roots : HashOut × HashOut) (p : PrivTxProof) : Prop :=
  ∃ prover, Op.finalize prover ∈ ops ∧ prover.prove roots.1 roots.2 = .ok p

/-- What holds in every history. -/
structure Recorded (ops : List Op) (h : History PrivateTxBatch PrivTxProof) : Prop where
  filled : ∃ roots, (∀ p ∈ h.batch.proofs, commonRoots p.publicInputs = roots) ∧
    Filled PRIV_TX_BATCH_SIZE (IsPadding ops roots) h.accepted h.batch.proofs
  root : ∀ root, h.batch.batchPoseidonRoot = some root → h.batch.isFull = true ∧
    SubtreeRootCircuit.computeRootNative perm
      (h.batch.proofs.flatMap PrivTxProof.outputCommitments) = some root

variable {perm} {b : PrivateTxBatch} {proof : PrivTxProof}

/-- An accepted proof fits: there is a free slot and it has the roots of the others. -/
theorem addProofInPlace_cases (b : PrivateTxBatch) (proof : PrivTxProof) :
    (Rejected (b.addProofInPlace proof).1 ∧ (b.addProofInPlace proof).2 = b) ∨
      (b.isFull = false ∧ b.batchPoseidonRoot = none ∧
        (∀ first ∈ b.proofs.head?,
          commonRoots proof.publicInputs = commonRoots first.publicInputs) ∧
        b.addProofInPlace proof =
          (.ok (PrivateTxBatch.isFull { b with proofs := b.proofs ++ [proof] }),
            { b with proofs := b.proofs ++ [proof] })) := by
  unfold addProofInPlace
  split
  · exact .inl ⟨⟨_, rfl⟩, rfl⟩
  split
  · exact .inl ⟨⟨_, rfl⟩, rfl⟩
  split
  · exact .inl ⟨⟨_, rfl⟩, rfl⟩
  split
  · exact .inl ⟨⟨_, rfl⟩, rfl⟩
  rename_i hfull hfinal hact hconfig
  refine .inr ⟨Bool.eq_false_of_not_eq_true hfull, Option.not_isSome_iff_eq_none.mp hfinal,
    fun first hfirst => Prod.ext ?_ ?_, rfl⟩
  · by_contra hne
    exact hact ⟨first, hfirst, hne⟩
  · by_contra hne
    exact hconfig ⟨first, hfirst, hne⟩

theorem isFull_eq_true : b.isFull = true ↔ b.proofs.length = PRIV_TX_BATCH_SIZE := beq_iff_eq

theorem recorded_new (ops : List Op) : Recorded perm ops ⟨new, []⟩ :=
  ⟨⟨0, by simp [new], filled_nil⟩, fun _ h => by cases h⟩

theorem recorded_addProof {ops : List Op} {h : History PrivateTxBatch PrivTxProof}
    (hR : Recorded perm ops h) (proof : PrivTxProof) :
    Recorded perm ops (record perm h (.addProof proof)) := by
  rcases addProofInPlace_cases h.batch proof with ⟨⟨e, hanswer⟩, hsame⟩ | ⟨hfree, hopen, hfirst, hadd⟩
  · have hrecord : record perm h (.addProof proof) = h := by
      simp only [record, hanswer, hsame, Except.isOk, Except.toBool, Bool.false_eq_true, if_false]
    rw [hrecord]
    exact hR
  · have hrecord : record perm h (.addProof proof) =
        ⟨{ h.batch with proofs := h.batch.proofs ++ [proof] }, h.accepted ++ [proof]⟩ := by
      simp only [record, hadd, Except.isOk, Except.toBool, if_true]
    rw [hrecord]
    obtain ⟨roots, huniform, hfilled⟩ := hR.filled
    have hroom : h.batch.proofs.length < PRIV_TX_BATCH_SIZE :=
      lt_of_le_of_ne hfilled.le fun hlen => by simp [isFull_eq_true.mpr hlen] at hfree
    refine ⟨⟨commonRoots proof.publicInputs, ?_, ?_⟩, ?_⟩
    · intro p hp
      rcases List.mem_append.mp hp with hp | hp
      · obtain ⟨first, rest, hproofs⟩ := List.exists_cons_of_ne_nil (List.ne_nil_of_mem hp)
        have hmem : first ∈ h.batch.proofs := hproofs ▸ List.mem_cons_self
        rw [huniform p hp, ← huniform first hmem, hfirst first (by rw [hproofs]; rfl)]
      · rw [List.mem_singleton.mp hp]
    · have hreal := hfilled.eq_of_lt hroom
      rw [hreal] at hroom ⊢
      refine Filled.push ⟨hroom.le, [], (List.append_nil _).symm, by simp, .inl rfl⟩ hroom proof
    · intro root hroot
      cases hopen.symm.trans hroot

theorem recorded_finalize {ops : List Op} {h : History PrivateTxBatch PrivTxProof}
    (hR : Recorded perm ops h) {prover : PaddingProver PrivTxProof.publicInputs}
    (hop : Op.finalize prover ∈ ops) : Recorded perm ops (record perm h (.finalize prover)) := by
  obtain ⟨roots, huniform, hfilled⟩ := hR.filled
  change Recorded perm ops ⟨(h.batch.finalizeInPlace perm prover).2, h.accepted⟩
  unfold finalizeInPlace
  split
  · exact hR
  rename_i first rest hproofs
  split
  · exact hR
  rename_i hopen
  split
  · exact hR
  rename_i proofs hpadded
  have hfirst : commonRoots first.publicInputs = roots :=
    huniform first (hproofs ▸ List.mem_cons_self)
  have hslots : (∀ p ∈ proofs, commonRoots p.publicInputs = roots) ∧
      Filled PRIV_TX_BATCH_SIZE (IsPadding ops roots) h.accepted proofs := by
    refine ⟨fun p hp => ?_, ?_⟩
    · rcases padded_ok hpadded p hp with hp | hp
      · exact huniform p hp
      · exact hp.trans hfirst
    · unfold padded at hpadded
      split at hpadded
      · rename_i hroom
        obtain ⟨padding, hprove, hpure⟩ := bind_eq_ok.mp hpadded
        obtain rfl := pure_eq_ok.mp hpure
        refine hfilled.pad hroom ⟨prover, hop, ?_⟩
        rw [← hfirst]
        exact hprove
      · cases hpadded
        exact hfilled
  dsimp only
  split
  · refine ⟨⟨roots, hslots⟩, fun root hroot => ?_⟩
    exact absurd (Option.isSome_of_mem hroot) hopen
  · rename_i root hroot
    obtain ⟨hfull, hnative⟩ := batchPoseidonRoot_native hroot
    refine ⟨⟨roots, hslots⟩, fun r hr => ?_⟩
    obtain rfl := Option.some.inj hr
    exact ⟨hfull, hnative⟩

theorem recorded_history (ops : List Op) : Recorded perm ops (history perm ops) := by
  refine List.foldlRecOn ops (record perm) (recorded_new ops) fun h hR op hop => ?_
  cases op with
  | addProof proof => exact recorded_addProof hR proof
  | finalize prover => exact recorded_finalize hR hop

/-- A finalized batch: the accepted proofs and then padding, all with the same roots, and the root
of their commitments slot by slot. -/
structure Complete (perm : State → State) (ops : List Op) (h : History PrivateTxBatch PrivTxProof)
    (root : HashOut) : Prop where
  capacity : h.batch.proofs.length = PRIV_TX_BATCH_SIZE
  slots : ∃ roots padding, (∀ p ∈ h.batch.proofs, commonRoots p.publicInputs = roots) ∧
    h.batch.proofs = h.accepted ++ padding ∧ ∀ p ∈ padding, IsPadding ops roots p
  root_eq : SubtreeRootCircuit.computeRootNative perm
    (h.batch.proofs.flatMap PrivTxProof.outputCommitments) = some root

theorem Recorded.complete {ops : List Op} {h : History PrivateTxBatch PrivTxProof}
    (hR : Recorded perm ops h) {root : HashOut} (hroot : h.batch.batchPoseidonRoot = some root) :
    Complete perm ops h root := by
  obtain ⟨hfull, hnative⟩ := hR.root root hroot
  obtain ⟨roots, huniform, hfilled⟩ := hR.filled
  obtain ⟨padding, hslots, hpadding, -⟩ := hfilled.padded
  exact ⟨isFull_eq_true.mp hfull, ⟨roots, padding, huniform, hslots, hpadding⟩, hnative⟩

theorem addProofInPlace_rejected (proof : PrivTxProof) (h : b.isFull = true ∨ b.isFinalized = true) :
    Rejected (b.addProofInPlace proof).1 := by
  rcases addProofInPlace_cases b proof with ⟨hrejected, -⟩ | ⟨hfree, hopen, -⟩
  · exact hrejected
  · rw [isFinalized, hfree, hopen] at h
    simp at h

theorem addProofInPlace_unchanged (h : Rejected (b.addProofInPlace proof).1) :
    (b.addProofInPlace proof).2 = b := by
  rcases addProofInPlace_cases b proof with ⟨-, hsame⟩ | ⟨-, -, -, hadd⟩
  · exact hsame
  · obtain ⟨e, he⟩ := h
    rw [hadd] at he
    cases he

end PrivateTxBatch

/-! ## Bridge transactions -/

def BridgeTxProof.isWithdraw : BridgeTxProof → Bool
  | .withdrawTxProof _ => true
  | .depositTxProof _ => false

namespace BridgeTxBatch

section Calls

variable (b : BridgeTxBatch)

/-- The end of `add_proof`: the proof goes into its half. -/
def pushInPlace (proof : BridgeTxProof) : Except BatchError Bool × BridgeTxBatch :=
  match proof with
  | .withdrawTxProof _ =>
    if b.isWithdrawFull then (.error .withdrawHalfFull, b)
    else
      let b := { b with withdrawHalf := b.withdrawHalf ++ [proof] }
      (.ok b.isFull, b)
  | .depositTxProof _ =>
    if b.isDepositFull then (.error .depositHalfFull, b)
    else
      let b := { b with depositHalf := b.depositHalf ++ [proof] }
      (.ok b.isFull, b)

/-- `add_proof`: its answer and the batch it leaves. The first proof sets the roots before it is
known to fit. -/
def addProofInPlace (proof : BridgeTxProof) : Except BatchError Bool × BridgeTxBatch :=
  if b.isFull then (.error .batchFull, b)
  else if b.isFinalized then (.error .alreadyFinalized, b)
  else
    match b.commonActRoot with
    | some root =>
      if actRoot proof.pis ≠ root then (.error .actRootMismatch, b)
      else
        match b.commonMainConfigRoot with
        | none => (.error .noProofs, b)
        | some config =>
          if mainpoolConfigRoot proof.pis ≠ config then (.error .mainpoolConfigRootMismatch, b)
          else b.pushInPlace proof
    | none => pushInPlace { b with
        commonActRoot := some (actRoot proof.pis)
        commonMainConfigRoot := some (mainpoolConfigRoot proof.pis) } proof

/-- One call in a history. -/
def record (h : History BridgeTxBatch BridgeTxProof) : Op → History BridgeTxBatch BridgeTxProof
  | .addProof proof =>
    let (answer, b) := h.batch.addProofInPlace proof
    ⟨b, if answer.isOk then h.accepted ++ [proof] else h.accepted⟩
  | .finalize withdrawProver depositProver =>
    ⟨(h.batch.finalize perm withdrawProver depositProver).2, h.accepted⟩

/-- The history of a new batch. -/
def history (ops : List Op) : History BridgeTxBatch BridgeTxProof :=
  ops.foldl (record perm) ⟨new, []⟩

end Calls

variable {perm} {b b' : BridgeTxBatch} {proof : BridgeTxProof}

/-! ### A rejected proof -/

theorem pushInPlace_eq (proof : BridgeTxProof) :
    b.pushInPlace proof = match b.push proof with
      | .ok b' => (.ok b'.isFull, b')
      | .error e => (.error e, b) := by
  cases proof with
  | withdrawTxProof w =>
    by_cases hfull : b.isWithdrawFull = true
    · simp [pushInPlace, push, revertIf, hfull, bind, Except.bind]
    · simp [pushInPlace, push, revertIf, hfull, bind, Except.bind, pure, Except.pure]
  | depositTxProof d =>
    by_cases hfull : b.isDepositFull = true
    · simp [pushInPlace, push, revertIf, hfull, bind, Except.bind]
    · simp [pushInPlace, push, revertIf, hfull, bind, Except.bind, pure, Except.pure]

/-- A batch without roots is empty, so its first proof fits. -/
theorem push_first (hU : b.Uniform) (hnone : b.commonActRoot = none) (root config : HashOut)
    (proof : BridgeTxProof) : ∃ b',
      push { b with commonActRoot := some root, commonMainConfigRoot := some config } proof =
        .ok b' := by
  have hempty : b.withdrawHalf ++ b.depositHalf = [] := by
    refine List.eq_nil_iff_forall_not_mem.mpr fun p hp => ?_
    cases hnone.symm.trans (hU.roots p hp).1
  obtain ⟨hw, hd⟩ := List.append_eq_nil_iff.mp hempty
  cases proof with
  | withdrawTxProof w =>
    refine ⟨_, revertIf_bind_eq_ok.mpr ⟨?_, rfl⟩⟩
    rw [isWithdrawFull, hw]
    decide
  | depositTxProof d =>
    refine ⟨_, revertIf_bind_eq_ok.mpr ⟨?_, rfl⟩⟩
    rw [isDepositFull, hd]
    decide

/-- On the batches that occur a rejected proof leaves nothing behind. -/
theorem addProofInPlace_eq (hU : b.Uniform) (proof : BridgeTxProof) :
    b.addProofInPlace proof = match b.addProof proof with
      | .ok (full, b') => (.ok full, b')
      | .error e => (.error e, b) := by
  unfold addProofInPlace addProof
  by_cases hfull : b.isFull = true
  · simp [revertIf, hfull, bind, Except.bind]
  by_cases hfinal : b.isFinalized = true
  · simp [revertIf, hfull, hfinal, bind, Except.bind]
  rw [if_neg hfull, if_neg hfinal, revertIf_of_not hfull, revertIf_of_not hfinal]
  cases hroot : b.commonActRoot with
  | none =>
    obtain ⟨b', hpush⟩ := push_first hU hroot (actRoot proof.pis) (mainpoolConfigRoot proof.pis) proof
    simp [checkRoots, hroot, pushInPlace_eq, hpush, bind, Except.bind, pure, Except.pure]
  | some root =>
    by_cases hact : actRoot proof.pis = root
    · cases hconfig : b.commonMainConfigRoot with
      | none => simp [checkRoots, hroot, hact, hconfig, revertIf, bind, Except.bind]
      | some config =>
        by_cases hmain : mainpoolConfigRoot proof.pis = config
        · cases hpush : b.push proof with
          | error e =>
            simp [checkRoots, hroot, hact, hconfig, hmain, revertIf, pushInPlace_eq, hpush, bind,
              Except.bind, pure, Except.pure]
          | ok b' =>
            simp [checkRoots, hroot, hact, hconfig, hmain, revertIf, pushInPlace_eq, hpush, bind,
              Except.bind, pure, Except.pure]
        · simp [checkRoots, hroot, hact, hconfig, hmain, revertIf, bind, Except.bind]
    · simp [checkRoots, hroot, hact, revertIf, bind, Except.bind]

/-! ### An accepted proof -/

/-- `b'` is `b` with one more proof, at the end of its half. -/
structure Added (b b' : BridgeTxBatch) (proof : BridgeTxProof) : Prop where
  roots : b.commonActRoot = none ∨
    b'.commonActRoot = b.commonActRoot ∧ b'.commonMainConfigRoot = b.commonMainConfigRoot
  half : (proof.isWithdraw = true ∧ b.isWithdrawFull = false ∧
      b'.withdrawHalf = b.withdrawHalf ++ [proof] ∧ b'.depositHalf = b.depositHalf) ∨
    (proof.isWithdraw = false ∧ b.isDepositFull = false ∧
      b'.withdrawHalf = b.withdrawHalf ∧ b'.depositHalf = b.depositHalf ++ [proof])

theorem checkRoots_frame (h : b.checkRoots proof = .ok b') :
    (b.commonActRoot = none ∨ b' = b) ∧ b'.withdrawHalf = b.withdrawHalf ∧
      b'.depositHalf = b.depositHalf := by
  unfold checkRoots at h
  split at h
  · obtain ⟨-, h⟩ := revertIf_bind_eq_ok.mp h
    obtain ⟨config, -, h⟩ := bind_eq_ok.mp h
    obtain ⟨-, h⟩ := revertIf_bind_eq_ok.mp h
    obtain rfl := pure_eq_ok.mp h
    exact ⟨.inr rfl, rfl, rfl⟩
  · rename_i hnone
    cases h
    exact ⟨.inl hnone, rfl, rfl⟩

theorem push_added (h : b.push proof = .ok b') : Added b b' proof := by
  cases proof with
  | withdrawTxProof w =>
    obtain ⟨hroom, h⟩ := revertIf_bind_eq_ok.mp h
    obtain rfl := pure_eq_ok.mp h
    exact ⟨.inr ⟨rfl, rfl⟩, .inl ⟨rfl, Bool.eq_false_of_not_eq_true hroom, rfl, rfl⟩⟩
  | depositTxProof d =>
    obtain ⟨hroom, h⟩ := revertIf_bind_eq_ok.mp h
    obtain rfl := pure_eq_ok.mp h
    exact ⟨.inr ⟨rfl, rfl⟩, .inr ⟨rfl, Bool.eq_false_of_not_eq_true hroom, rfl, rfl⟩⟩

theorem addProof_added {full : Bool} (h : b.addProof proof = .ok (full, b')) :
    b.isFull = false ∧ b.isFinalized = false ∧ Added b b' proof := by
  unfold addProof at h
  obtain ⟨hfree, h⟩ := revertIf_bind_eq_ok.mp h
  obtain ⟨hopen, h⟩ := revertIf_bind_eq_ok.mp h
  obtain ⟨b₁, hcheck, h⟩ := bind_eq_ok.mp h
  obtain ⟨b₂, hpush, h⟩ := bind_eq_ok.mp h
  cases pure_eq_ok.mp h
  refine ⟨Bool.eq_false_of_not_eq_true hfree, Bool.eq_false_of_not_eq_true hopen, ?_⟩
  obtain ⟨hframe, hw, hd⟩ := checkRoots_frame hcheck
  obtain ⟨hroots, hhalf⟩ := push_added hpush
  rw [isWithdrawFull, isDepositFull, hw, hd] at hhalf
  refine ⟨?_, hhalf⟩
  rcases hframe with hnone | rfl
  · exact .inl hnone
  · exact hroots

/-- A call of `add_proof` is rejected and changes nothing, or adds the proof. -/
theorem addProofInPlace_cases (hU : b.Uniform) (proof : BridgeTxProof) :
    (Rejected (b.addProofInPlace proof).1 ∧ (b.addProofInPlace proof).2 = b) ∨
      ∃ full b', b.addProof proof = .ok (full, b') ∧
        b.addProofInPlace proof = (.ok full, b') := by
  rw [addProofInPlace_eq hU]
  cases hadd : b.addProof proof with
  | error e => exact .inl ⟨⟨e, rfl⟩, rfl⟩
  | ok r => exact .inr ⟨r.1, r.2, rfl, rfl⟩

/-! ### Histories -/

/-- `p` is a withdrawal that a call of `finalize` made for the roots of the batch. -/
def IsWithdrawPadding (ops : List Op) (b : BridgeTxBatch) (p : BridgeTxProof) : Prop :=
  ∃ pw pd root config w, Op.finalize pw pd ∈ ops ∧ b.commonActRoot = some root ∧
    b.commonMainConfigRoot = some config ∧ pw.prove root config = .ok w ∧ p = .withdrawTxProof w

/-- `p` is a deposit that a call of `finalize` made for the roots of the batch. -/
def IsDepositPadding (ops : List Op) (b : BridgeTxBatch) (p : BridgeTxProof) : Prop :=
  ∃ pw pd root config d, Op.finalize pw pd ∈ ops ∧ b.commonActRoot = some root ∧
    b.commonMainConfigRoot = some config ∧ pd.prove root config = .ok d ∧ p = .depositTxProof d

/-- The accepted withdrawals, in order. -/
def withdraws (accepted : List BridgeTxProof) : List BridgeTxProof :=
  accepted.filter BridgeTxProof.isWithdraw

/-- The accepted deposits, in order. -/
def deposits (accepted : List BridgeTxProof) : List BridgeTxProof :=
  accepted.filter fun p => !p.isWithdraw

theorem withdraws_concat (accepted : List BridgeTxProof) (p : BridgeTxProof) :
    withdraws (accepted ++ [p]) =
      if p.isWithdraw = true then withdraws accepted ++ [p] else withdraws accepted := by
  rw [withdraws, List.filter_append, List.filter_singleton]
  cases p with
  | withdrawTxProof w => rfl
  | depositTxProof d => exact List.append_nil _

theorem deposits_concat (accepted : List BridgeTxProof) (p : BridgeTxProof) :
    deposits (accepted ++ [p]) =
      if p.isWithdraw = true then deposits accepted else deposits accepted ++ [p] := by
  rw [deposits, List.filter_append, List.filter_singleton]
  cases p with
  | withdrawTxProof w => exact List.append_nil _
  | depositTxProof d => rfl

/-- The halves of a batch hold what was accepted. -/
structure Halves (ops : List Op) (b : BridgeTxBatch) (accepted : List BridgeTxProof) : Prop where
  withdraw : Filled HALF (IsWithdrawPadding ops b) (withdraws accepted) b.withdrawHalf
  deposit : Filled HALF (IsDepositPadding ops b) (deposits accepted) b.depositHalf

variable {ops : List Op} {accepted : List BridgeTxProof}

theorem halves_new (ops : List Op) : Halves ops new [] := ⟨filled_nil, filled_nil⟩

/-- A half depends on the batch by the common roots only. -/
theorem IsWithdrawPadding.mono {p : BridgeTxProof} (h : IsWithdrawPadding ops b p)
    (hroots : b.commonActRoot = none ∨
      b'.commonActRoot = b.commonActRoot ∧ b'.commonMainConfigRoot = b.commonMainConfigRoot) :
    IsWithdrawPadding ops b' p := by
  obtain ⟨pw, pd, root, config, w, hop, hroot, hconfig, hprove, rfl⟩ := h
  rcases hroots with hnone | ⟨hact, hmain⟩
  · cases hnone.symm.trans hroot
  · exact ⟨pw, pd, root, config, w, hop, hact.trans hroot, hmain.trans hconfig, hprove, rfl⟩

theorem IsDepositPadding.mono {p : BridgeTxProof} (h : IsDepositPadding ops b p)
    (hroots : b.commonActRoot = none ∨
      b'.commonActRoot = b.commonActRoot ∧ b'.commonMainConfigRoot = b.commonMainConfigRoot) :
    IsDepositPadding ops b' p := by
  obtain ⟨pw, pd, root, config, d, hop, hroot, hconfig, hprove, rfl⟩ := h
  rcases hroots with hnone | ⟨hact, hmain⟩
  · cases hnone.symm.trans hroot
  · exact ⟨pw, pd, root, config, d, hop, hact.trans hroot, hmain.trans hconfig, hprove, rfl⟩

theorem Halves.added (h : Halves ops b accepted) (hadd : Added b b' proof) :
    Halves ops b' (accepted ++ [proof]) := by
  have hw := h.withdraw.mono fun p hp => hp.mono hadd.roots
  have hd := h.deposit.mono fun p hp => hp.mono hadd.roots
  rcases hadd.half with ⟨hkind, hroom, hwithdraw, hdeposit⟩ | ⟨hkind, hroom, hwithdraw, hdeposit⟩
  · have hlt : b.withdrawHalf.length < HALF :=
      lt_of_le_of_ne hw.le (by simpa [isWithdrawFull] using hroom)
    refine ⟨?_, ?_⟩
    · rw [hwithdraw, withdraws_concat, if_pos hkind]
      exact hw.push hlt proof
    · rw [hdeposit, deposits_concat, if_pos hkind]
      exact hd
  · have hlt : b.depositHalf.length < HALF :=
      lt_of_le_of_ne hd.le (by simpa [isDepositFull] using hroom)
    refine ⟨?_, ?_⟩
    · rw [hwithdraw, withdraws_concat, if_neg (by simp [hkind])]
      exact hw
    · rw [hdeposit, deposits_concat, if_neg (by simp [hkind])]
      exact hd.push hlt proof

theorem filled_paddedHalf {P : BridgeTxProof → Prop} {real half half' : List BridgeTxProof}
    {padding : Except BatchError BridgeTxProof} (h : Filled HALF P real half)
    (hP : ∀ p, padding = .ok p → P p) (hhalf : paddedHalf half padding = .ok half') :
    Filled HALF P real half' := by
  unfold paddedHalf at hhalf
  split at hhalf
  · rename_i hroom
    obtain ⟨p, hp, hpure⟩ := bind_eq_ok.mp hhalf
    obtain rfl := pure_eq_ok.mp hpure
    exact h.pad hroom (hP p hp)
  · cases hhalf
    exact h

theorem Halves.finalize (h : Halves ops b accepted) {pw : PaddingProver WithdrawProof.publicInputs}
    {pd : PaddingProver DepositProof.publicInputs} (hop : Op.finalize pw pd ∈ ops) :
    Halves ops (b.finalize perm pw pd).2 accepted := by
  unfold BridgeTxBatch.finalize
  split
  · exact h
  split
  · exact h
  split
  swap
  · exact h
  rename_i root config hroot hconfig
  split
  · exact h
  rename_i withdrawHalf hw
  have hwithdraw : Filled HALF (IsWithdrawPadding ops b) (withdraws accepted) withdrawHalf := by
    refine filled_paddedHalf h.withdraw (fun p hp => ?_) hw
    obtain ⟨w, hprove, rfl⟩ := map_eq_ok hp
    exact ⟨pw, pd, root, config, w, hop, hroot, hconfig, hprove, rfl⟩
  split
  · exact ⟨hwithdraw, h.deposit⟩
  rename_i depositHalf hd
  have hdeposit : Filled HALF (IsDepositPadding ops b) (deposits accepted) depositHalf := by
    refine filled_paddedHalf h.deposit (fun p hp => ?_) hd
    obtain ⟨d, hprove, rfl⟩ := map_eq_ok hp
    exact ⟨pw, pd, root, config, d, hop, hroot, hconfig, hprove, rfl⟩
  dsimp only
  split
  · exact ⟨hwithdraw, hdeposit⟩
  · exact ⟨hwithdraw, hdeposit⟩

/-- What holds in every history. -/
structure Recorded (perm : State → State) (ops : List Op)
    (h : History BridgeTxBatch BridgeTxProof) : Prop where
  inv : h.batch.Inv perm
  halves : Halves ops h.batch h.accepted

theorem recorded_step {h : History BridgeTxBatch BridgeTxProof} (hR : Recorded perm ops h) {op : Op}
    (hop : op ∈ ops) : Recorded perm ops (record perm h op) := by
  cases op with
  | addProof proof =>
    rcases addProofInPlace_cases hR.inv.toUniform proof with
      ⟨⟨e, hanswer⟩, hsame⟩ | ⟨full, b', hadd, hplace⟩
    · have hrecord : record perm h (.addProof proof) = h := by
        simp only [record, hanswer, hsame, Except.isOk, Except.toBool, Bool.false_eq_true, if_false]
      rw [hrecord]
      exact hR
    · have hrecord : record perm h (.addProof proof) = ⟨b', h.accepted ++ [proof]⟩ := by
        simp only [record, hplace, Except.isOk, Except.toBool, if_true]
      obtain ⟨hU, hnone⟩ := addProof_ok hR.inv.toUniform hadd
      rw [hrecord]
      exact ⟨⟨hU, fun r hr => absurd (hnone.symm.trans hr) (by simp)⟩,
        hR.halves.added (addProof_added hadd).2.2⟩
  | finalize pw pd => exact ⟨finalize_inv hR.inv, hR.halves.finalize hop⟩

theorem recorded_history (ops : List Op) : Recorded perm ops (history perm ops) :=
  List.foldlRecOn ops (record perm) ⟨new_inv, halves_new ops⟩ fun _ hR _ hop => recorded_step hR hop

/-- A finalized batch: the accepted withdrawals and then padding in the first half, the accepted
deposits and then padding in the second, all with the same roots, and the root of their
commitments slot by slot. -/
structure Complete (perm : State → State) (ops : List Op)
    (h : History BridgeTxBatch BridgeTxProof) (root : HashOut) : Prop where
  capacity : h.batch.finalizedProofs.length = BRIDGE_TX_BATCH_SIZE
  roots : ∃ roots, ∀ p ∈ h.batch.finalizedProofs, commonRoots p.pis = roots
  slots : ∃ ws ds, h.batch.finalizedProofs =
      (withdraws h.accepted ++ ws) ++ (deposits h.accepted ++ ds) ∧
    (withdraws h.accepted ++ ws).length = HALF ∧ (deposits h.accepted ++ ds).length = HALF ∧
    (∀ p ∈ ws, IsWithdrawPadding ops h.batch p) ∧ ∀ p ∈ ds, IsDepositPadding ops h.batch p
  root_eq : SubtreeRootCircuit.computeRootNative perm
    (h.batch.finalizedProofs.flatMap BridgeTxProof.outputCommitments) = some root

theorem Recorded.complete {h : History BridgeTxBatch BridgeTxProof} (hR : Recorded perm ops h)
    {root : HashOut} (hroot : h.batch.batchPoseidonRoot = some root) : Complete perm ops h root := by
  obtain ⟨hwlen, hdlen, hproofs, hnative⟩ := hR.inv.root root hroot
  obtain ⟨ws, hws, hwpadding, -⟩ := hR.halves.withdraw.padded
  obtain ⟨ds, hds, hdpadding, -⟩ := hR.halves.deposit.padded
  have hlen : h.batch.finalizedProofs.length = BRIDGE_TX_BATCH_SIZE := by
    rw [hproofs, List.length_append, hwlen, hdlen]
    decide
  have hleaves : (h.batch.finalizedProofs.flatMap BridgeTxProof.outputCommitments).length =
      2 ^ SUBTREE_DEPTH := by
    rw [length_flatMap_record (w := 1) fun p _ => rfl, hlen]
    rfl
  refine ⟨hlen, ?_, ⟨ws, ds, ?_, hws ▸ hwlen, hds ▸ hdlen, hwpadding, hdpadding⟩, ?_⟩
  · refine ⟨((h.batch.commonActRoot).getD 0, (h.batch.commonMainConfigRoot).getD 0), fun p hp => ?_⟩
    rw [hproofs] at hp
    obtain ⟨hact, hmain⟩ := hR.inv.roots p hp
    rw [hact, hmain]
    rfl
  · rw [← hws, ← hds]
    exact hproofs
  · rw [computeRootNative_rounds hleaves, hnative]

theorem addProofInPlace_rejected (hU : b.Uniform) (proof : BridgeTxProof)
    (h : b.isFull = true ∨ b.isFinalized = true ∨
      (proof.isWithdraw = true ∧ b.isWithdrawFull = true) ∨
      (proof.isWithdraw = false ∧ b.isDepositFull = true)) :
    Rejected (b.addProofInPlace proof).1 := by
  rcases addProofInPlace_cases hU proof with ⟨hrejected, -⟩ | ⟨full, b', hadd, -⟩
  · exact hrejected
  · obtain ⟨hfree, hopen, hadded⟩ := addProof_added hadd
    rcases hadded.half with ⟨hkind, hroom, -⟩ | ⟨hkind, hroom, -⟩
    · simp [hfree, hopen, hkind, hroom] at h
    · simp [hfree, hopen, hkind, hroom] at h

theorem addProofInPlace_unchanged (hU : b.Uniform)
    (h : Rejected (b.addProofInPlace proof).1) : (b.addProofInPlace proof).2 = b := by
  rcases addProofInPlace_cases hU proof with ⟨-, hsame⟩ | ⟨full, b', -, hplace⟩
  · exact hsame
  · obtain ⟨e, he⟩ := h
    rw [hplace] at he
    cases he

end BridgeTxBatch

/-- In every history of either kind of batch: a finalized batch is complete, a proof for which
there is no place is rejected, and a rejected proof leaves the batch as it was. -/
theorem batch_lifecycle (perm : State → State) :
    (∀ ops : List PrivateTxBatch.Op,
      (∀ root, (PrivateTxBatch.history perm ops).batch.batchPoseidonRoot = some root →
        PrivateTxBatch.Complete perm ops (PrivateTxBatch.history perm ops) root) ∧
      ∀ proof,
        ((PrivateTxBatch.history perm ops).batch.isFull = true ∨
            (PrivateTxBatch.history perm ops).batch.isFinalized = true →
          Rejected ((PrivateTxBatch.history perm ops).batch.addProofInPlace proof).1) ∧
        (Rejected ((PrivateTxBatch.history perm ops).batch.addProofInPlace proof).1 →
          ((PrivateTxBatch.history perm ops).batch.addProofInPlace proof).2 =
            (PrivateTxBatch.history perm ops).batch)) ∧
    ∀ ops : List BridgeTxBatch.Op,
      (∀ root, (BridgeTxBatch.history perm ops).batch.batchPoseidonRoot = some root →
        BridgeTxBatch.Complete perm ops (BridgeTxBatch.history perm ops) root) ∧
      ∀ proof,
        ((BridgeTxBatch.history perm ops).batch.isFull = true ∨
            (BridgeTxBatch.history perm ops).batch.isFinalized = true ∨
            (proof.isWithdraw = true ∧
              (BridgeTxBatch.history perm ops).batch.isWithdrawFull = true) ∨
            (proof.isWithdraw = false ∧
              (BridgeTxBatch.history perm ops).batch.isDepositFull = true) →
          Rejected ((BridgeTxBatch.history perm ops).batch.addProofInPlace proof).1) ∧
        (Rejected ((BridgeTxBatch.history perm ops).batch.addProofInPlace proof).1 →
          ((BridgeTxBatch.history perm ops).batch.addProofInPlace proof).2 =
            (BridgeTxBatch.history perm ops).batch) := by
  constructor
  · intro ops
    have hR : PrivateTxBatch.Recorded perm ops (PrivateTxBatch.history perm ops) :=
      PrivateTxBatch.recorded_history ops
    exact ⟨fun _ hroot => hR.complete hroot, fun proof =>
      ⟨PrivateTxBatch.addProofInPlace_rejected proof, PrivateTxBatch.addProofInPlace_unchanged⟩⟩
  · intro ops
    have hR : BridgeTxBatch.Recorded perm ops (BridgeTxBatch.history perm ops) :=
      BridgeTxBatch.recorded_history ops
    exact ⟨fun _ hroot => hR.complete hroot, fun proof =>
      ⟨BridgeTxBatch.addProofInPlace_rejected hR.inv.toUniform proof,
        BridgeTxBatch.addProofInPlace_unchanged hR.inv.toUniform⟩⟩

end Doxa.Server
