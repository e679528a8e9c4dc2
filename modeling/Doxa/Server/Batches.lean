import Doxa.Lib.Execution
import Doxa.Server.BatchHelper

/-!
# The two kinds of batches

`PrivateTxBatch` holds private transactions in one list; `BridgeTxBatch` fills a half with
withdrawals and a half with deposits, in any order, and concatenates the halves when it is
finalized. For both, whatever calls were made: the proofs of a batch share their roots, and
a batch with a root is full and has the root of all its output commitments.
-/

namespace Doxa.Server

open Lib Circuit

variable (perm : State → State)

/-! ## Private transactions -/

structure PrivateTxBatch where
  proofs : List PrivTxProof
  batchPoseidonRoot : Option HashOut

namespace PrivateTxBatch

def new : PrivateTxBatch := ⟨[], none⟩

variable (b : PrivateTxBatch)

def isFull : Bool := b.proofs.length == PRIV_TX_BATCH_SIZE

def isFinalized : Bool := b.batchPoseidonRoot.isSome

def commitmentsSubtreeRoot : Except BatchError HashOut :=
  b.batchPoseidonRoot.elim (.error .notFinalized) .ok

/-- The public inputs of all proofs. -/
def pis : List (List F) := b.proofs.map PrivTxProof.publicInputs

/-- The answer says whether the batch is full now. -/
def addProof (proof : PrivTxProof) : Except BatchError (Bool × PrivateTxBatch) := do
  revertIf (b.isFull = true) .batchFull
  revertIf (b.isFinalized = true) .alreadyFinalized
  revertIf (∃ first ∈ b.proofs.head?, actRoot proof.publicInputs ≠ actRoot first.publicInputs)
    .actRootMismatch
  revertIf (∃ first ∈ b.proofs.head?,
    mainpoolConfigRoot proof.publicInputs ≠ mainpoolConfigRoot first.publicInputs)
    .mainpoolConfigRootMismatch
  let b := { b with proofs := b.proofs ++ [proof] }
  return (b.isFull, b)

/-- The proofs of a batch that begins with `first`, padded to capacity. -/
def padded (prover : PaddingProver PrivTxProof.publicInputs) (first : PrivTxProof) :
    Except BatchError (List PrivTxProof) :=
  if b.proofs.length < PRIV_TX_BATCH_SIZE then do
    let padding ← prover.prove (actRoot first.publicInputs) (mainpoolConfigRoot first.publicInputs)
    return b.proofs ++ List.replicate (PRIV_TX_BATCH_SIZE - b.proofs.length) padding
  else .ok b.proofs

def finalize (prover : PaddingProver PrivTxProof.publicInputs) : Except BatchError PrivateTxBatch :=
  match b.proofs with
  | [] => .error .batchEmpty
  | first :: _ => do
    revertIf (b.isFinalized = true) .alreadyFinalized
    let proofs ← b.padded prover first
    let root ← Server.batchPoseidonRoot perm (proofs.length == PRIV_TX_BATCH_SIZE)
      (proofs.flatMap PrivTxProof.outputCommitments)
    return ⟨proofs, some root⟩

/-- A call on the batch. -/
inductive Op
  | addProof (proof : PrivTxProof)
  | finalize (prover : PaddingProver PrivTxProof.publicInputs)

def step : Op → PrivateTxBatch → Except BatchError PrivateTxBatch
  | .addProof proof, b => Prod.snd <$> b.addProof proof
  | .finalize prover, b => b.finalize perm prover

/-- What holds of every batch. -/
structure Inv : Prop where
  uniform : ∀ p ∈ b.proofs, ∀ q ∈ b.proofs, commonRoots p.publicInputs = commonRoots q.publicInputs
  root : ∀ r, b.batchPoseidonRoot = some r → b.proofs.length = PRIV_TX_BATCH_SIZE ∧
    r = computeRootNative perm (b.proofs.flatMap PrivTxProof.outputCommitments)

end PrivateTxBatch

variable {perm}

/-- `batch_poseidon_root` succeeds on a full batch with the right number of leaves. -/
theorem batchPoseidonRoot_ok {isFull : Bool} {leaves : List HashOut} {r : HashOut}
    (h : batchPoseidonRoot perm isFull leaves = .ok r) :
    isFull = true ∧ r = computeRootNative perm leaves := by
  simp only [batchPoseidonRoot, revertIf_bind_eq_ok, pure_eq_ok] at h
  obtain ⟨hfull, -, rfl⟩ := h
  exact ⟨eq_true_of_ne_false hfull, rfl⟩

namespace PrivateTxBatch

variable {b b' : PrivateTxBatch}

theorem new_inv : (new : PrivateTxBatch).Inv perm where
  uniform := by
    intro p hp
    cases hp
  root := by
    intro r hr
    cases hr

theorem addProof_ok {proof : PrivTxProof} {full : Bool} (h : b.addProof proof = .ok (full, b')) :
    b.batchPoseidonRoot = none ∧ b' = { b with proofs := b.proofs ++ [proof] } ∧
      ∀ first ∈ b.proofs.head?,
        commonRoots proof.publicInputs = commonRoots first.publicInputs := by
  simp only [addProof, revertIf_bind_eq_ok, pure_eq_ok, Prod.mk.injEq] at h
  obtain ⟨-, hfinal, hroot, hconfig, -, rfl⟩ := h
  refine ⟨Option.not_isSome_iff_eq_none.mp hfinal, rfl, ?_⟩
  intro first hfirst
  have hroot' : actRoot proof.publicInputs = actRoot first.publicInputs := by
    by_contra hne
    exact hroot ⟨first, hfirst, hne⟩
  have hconfig' : mainpoolConfigRoot proof.publicInputs = mainpoolConfigRoot first.publicInputs := by
    by_contra hne
    exact hconfig ⟨first, hfirst, hne⟩
  exact Prod.ext hroot' hconfig'

theorem padded_ok {prover : PaddingProver PrivTxProof.publicInputs} {first : PrivTxProof}
    {proofs : List PrivTxProof} (h : b.padded prover first = .ok proofs) :
    ∀ p ∈ proofs, p ∈ b.proofs ∨ commonRoots p.publicInputs = commonRoots first.publicInputs := by
  intro p hp
  unfold padded at h
  split at h
  · obtain ⟨padding, hpadding, h⟩ := bind_eq_ok.mp h
    obtain rfl := pure_eq_ok.mp h
    rcases List.mem_append.mp hp with hp | hp
    · exact .inl hp
    · obtain rfl := List.eq_of_mem_replicate hp
      exact .inr (prover.roots _ _ _ hpadding)
  · cases h
    exact .inl hp

theorem finalize_ok {prover : PaddingProver PrivTxProof.publicInputs}
    (h : b.finalize perm prover = .ok b') :
    ∃ first ∈ b.proofs, b.padded prover first = .ok b'.proofs ∧
      b'.proofs.length = PRIV_TX_BATCH_SIZE ∧ b'.batchPoseidonRoot =
        some (computeRootNative perm (b'.proofs.flatMap PrivTxProof.outputCommitments)) := by
  unfold finalize at h
  split at h
  · cases h
  · rename_i first rest hproofs
    obtain ⟨-, h⟩ := revertIf_bind_eq_ok.mp h
    obtain ⟨proofs, hpadded, h⟩ := bind_eq_ok.mp h
    obtain ⟨root, hroot, h⟩ := bind_eq_ok.mp h
    obtain rfl := pure_eq_ok.mp h
    obtain ⟨hfull, rfl⟩ := batchPoseidonRoot_ok hroot
    refine ⟨first, ?_, hpadded, eq_of_beq hfull, rfl⟩
    rw [hproofs]
    exact List.mem_cons_self

theorem step_inv {op : Op} (hI : b.Inv perm) (h : step perm op b = .ok b') : b'.Inv perm := by
  cases op with
  | addProof proof =>
    obtain ⟨⟨full, b''⟩, hadd, heq⟩ := bind_eq_ok.mp h
    obtain rfl := pure_eq_ok.mp heq
    obtain ⟨hnone, rfl, hfirst⟩ := addProof_ok hadd
    refine ⟨?_, fun r hr => absurd (hnone.symm.trans hr) (by simp)⟩
    have hold : ∀ p ∈ b.proofs, commonRoots p.publicInputs = commonRoots proof.publicInputs := by
      intro p hp
      cases hproofs : b.proofs with
      | nil => rw [hproofs] at hp; cases hp
      | cons first rest =>
        have hmem : first ∈ b.proofs := hproofs ▸ List.mem_cons_self
        exact (hI.uniform p hp first hmem).trans (hfirst first (by rw [hproofs]; rfl)).symm
    have hall : ∀ p ∈ b.proofs ++ [proof],
        commonRoots p.publicInputs = commonRoots proof.publicInputs := by
      intro p hp
      rcases List.mem_append.mp hp with hp | hp
      · exact hold p hp
      · rw [List.mem_singleton.mp hp]
    exact fun p hp q hq => (hall p hp).trans (hall q hq).symm
  | finalize prover =>
    obtain ⟨first, hfirst, hpadded, hlength, hroot⟩ := finalize_ok h
    have hall : ∀ p ∈ b'.proofs, commonRoots p.publicInputs = commonRoots first.publicInputs := by
      intro p hp
      rcases padded_ok hpadded p hp with hp | hp
      · exact hI.uniform p hp first hfirst
      · exact hp
    refine ⟨fun p hp q hq => (hall p hp).trans (hall q hq).symm, ?_⟩
    intro r hr
    exact ⟨hlength, Option.some.inj (hr.symm.trans hroot)⟩

/-- Every sequence of calls on a new batch. -/
theorem run_inv_new (ops : List Op) : (run (step perm) new ops).Inv perm :=
  run_inv ops (fun b => b.Inv perm) new_inv fun _ _ _ _ hI h => step_inv hI h

end PrivateTxBatch

/-! ## Bridge transactions -/

structure BridgeTxBatch where
  withdrawHalf : List BridgeTxProof
  depositHalf : List BridgeTxProof
  commonActRoot : Option HashOut
  commonMainConfigRoot : Option HashOut
  batchPoseidonRoot : Option HashOut
  finalizedProofs : List BridgeTxProof

namespace BridgeTxBatch

def new : BridgeTxBatch := ⟨[], [], none, none, none, []⟩

variable (perm) (b : BridgeTxBatch)

def isWithdrawFull : Bool := b.withdrawHalf.length == HALF

def isDepositFull : Bool := b.depositHalf.length == HALF

def isFull : Bool := b.isWithdrawFull && b.isDepositFull

def isEmpty : Bool := b.withdrawHalf.isEmpty && b.depositHalf.isEmpty

def isFinalized : Bool := b.batchPoseidonRoot.isSome

def commitmentsSubtreeRoot : Except BatchError HashOut :=
  b.batchPoseidonRoot.elim (.error .notFinalized) .ok

/-- The public inputs of all proofs. -/
def pis : List (List F) := b.finalizedProofs.map BridgeTxProof.pis

/-- The common roots after a proof: the first one sets them, a later one has to agree. -/
def checkRoots (proof : BridgeTxProof) : Except BatchError BridgeTxBatch :=
  match b.commonActRoot with
  | some root => do
    revertIf (actRoot proof.pis ≠ root) .actRootMismatch
    let config ← b.commonMainConfigRoot.elim (.error .noProofs) .ok
    revertIf (mainpoolConfigRoot proof.pis ≠ config) .mainpoolConfigRootMismatch
    return b
  | none => .ok { b with
      commonActRoot := some (actRoot proof.pis)
      commonMainConfigRoot := some (mainpoolConfigRoot proof.pis) }

/-- The proof goes into its half. -/
def push (proof : BridgeTxProof) : Except BatchError BridgeTxBatch :=
  match proof with
  | .withdrawTxProof _ => do
    revertIf (b.isWithdrawFull = true) .withdrawHalfFull
    return { b with withdrawHalf := b.withdrawHalf ++ [proof] }
  | .depositTxProof _ => do
    revertIf (b.isDepositFull = true) .depositHalfFull
    return { b with depositHalf := b.depositHalf ++ [proof] }

/-- The answer says whether the batch is full now. -/
def addProof (proof : BridgeTxProof) : Except BatchError (Bool × BridgeTxBatch) := do
  revertIf (b.isFull = true) .batchFull
  revertIf (b.isFinalized = true) .alreadyFinalized
  let b ← b.checkRoots proof
  let b ← b.push proof
  return (b.isFull, b)

/-- A half, padded with the proof the prover makes. -/
def paddedHalf (half : List BridgeTxProof) (padding : Except BatchError BridgeTxProof) :
    Except BatchError (List BridgeTxProof) :=
  if half.length < HALF then do
    let padding ← padding
    return half ++ List.replicate (HALF - half.length) padding
  else .ok half

/-- The batch after `finalize`, also when it fails. -/
def finalize (withdrawProver : PaddingProver WithdrawProof.publicInputs)
    (depositProver : PaddingProver DepositProof.publicInputs) :
    Except BatchError Unit × BridgeTxBatch :=
  if b.isEmpty then (.error .batchEmpty, b)
  else if b.isFinalized then (.error .alreadyFinalized, b)
  else
    match b.commonActRoot, b.commonMainConfigRoot with
    | some root, some config =>
      match paddedHalf b.withdrawHalf (.withdrawTxProof <$> withdrawProver.prove root config) with
      | .error e => (.error e, b)
      | .ok withdrawHalf =>
        match paddedHalf b.depositHalf (.depositTxProof <$> depositProver.prove root config) with
        | .error e => (.error e, { b with withdrawHalf })
        | .ok depositHalf =>
          let b := { b with
            withdrawHalf, depositHalf, finalizedProofs := withdrawHalf ++ depositHalf }
          match Server.batchPoseidonRoot perm b.isFull
              (b.finalizedProofs.flatMap BridgeTxProof.outputCommitments) with
          | .error e => (.error e, b)
          | .ok root => (.ok (), { b with batchPoseidonRoot := some root })
    | _, _ => (.error .noProofs, b)

/-- A call on the batch. -/
inductive Op
  | addProof (proof : BridgeTxProof)
  | finalize (withdrawProver : PaddingProver WithdrawProof.publicInputs)
      (depositProver : PaddingProver DepositProof.publicInputs)

/-- The batch after a call. -/
def step (b : BridgeTxBatch) : Op → BridgeTxBatch
  | .addProof proof => match b.addProof proof with
    | .ok (_, b') => b'
    | .error _ => b
  | .finalize withdrawProver depositProver => (b.finalize perm withdrawProver depositProver).2

/-- The proofs of both halves carry the common roots. -/
structure Uniform : Prop where
  withdraws : ∀ p ∈ b.withdrawHalf, ∃ w, p = .withdrawTxProof w
  deposits : ∀ p ∈ b.depositHalf, ∃ d, p = .depositTxProof d
  roots : ∀ p ∈ b.withdrawHalf ++ b.depositHalf, b.commonActRoot = some (actRoot p.pis) ∧
    b.commonMainConfigRoot = some (mainpoolConfigRoot p.pis)

/-- What holds of every batch. -/
structure Inv : Prop extends b.Uniform where
  root : ∀ r, b.batchPoseidonRoot = some r →
    b.withdrawHalf.length = HALF ∧ b.depositHalf.length = HALF ∧
      b.finalizedProofs = b.withdrawHalf ++ b.depositHalf ∧
      r = computeRootNative perm (b.finalizedProofs.flatMap BridgeTxProof.outputCommitments)

variable {perm} {b b' : BridgeTxBatch}

theorem new_inv : (new : BridgeTxBatch).Inv perm where
  withdraws := by
    intro p hp
    cases hp
  deposits := by
    intro p hp
    cases hp
  roots := by
    intro p hp
    cases hp
  root := by
    intro r hr
    cases hr

/-- The proof `p` may join the halves. -/
structure Joins (b : BridgeTxBatch) (p : BridgeTxProof) : Prop where
  root : b.commonActRoot = some (actRoot p.pis)
  config : b.commonMainConfigRoot = some (mainpoolConfigRoot p.pis)

theorem checkRoots_ok {proof : BridgeTxProof} (hU : b.Uniform)
    (h : b.checkRoots proof = .ok b') :
    b'.Uniform ∧ b'.Joins proof ∧ b'.batchPoseidonRoot = b.batchPoseidonRoot := by
  unfold checkRoots at h
  split at h
  · rename_i root hroot
    obtain ⟨hact, h⟩ := revertIf_bind_eq_ok.mp h
    obtain ⟨config, hconfig, h⟩ := bind_eq_ok.mp h
    obtain ⟨hmain, h⟩ := revertIf_bind_eq_ok.mp h
    obtain rfl := pure_eq_ok.mp h
    refine ⟨hU, ⟨?_, ?_⟩, rfl⟩
    · rw [hroot, not_ne_iff.mp hact]
    · cases hc : b.commonMainConfigRoot with
      | none => rw [hc] at hconfig; cases hconfig
      | some c =>
        rw [hc] at hconfig
        cases hconfig
        rw [not_ne_iff.mp hmain]
  · rename_i hnone
    cases h
    refine ⟨⟨hU.withdraws, hU.deposits, ?_⟩, ⟨rfl, rfl⟩, rfl⟩
    intro p hp
    have hsome := (hU.roots p hp).1
    rw [hnone] at hsome
    cases hsome

theorem Uniform.withWithdraws {half : List BridgeTxProof} (hU : b.Uniform)
    (h : ∀ p ∈ half, p ∈ b.withdrawHalf ∨ (∃ w, p = .withdrawTxProof w) ∧ b.Joins p) :
    { b with withdrawHalf := half }.Uniform where
  withdraws := by
    intro p hp
    rcases h p hp with hp | ⟨hw, -⟩
    · exact hU.withdraws p hp
    · exact hw
  deposits := hU.deposits
  roots := by
    intro p hp
    rcases List.mem_append.mp hp with hp | hp
    · rcases h p hp with hp | ⟨-, hj⟩
      · exact hU.roots p (List.mem_append_left _ hp)
      · exact ⟨hj.root, hj.config⟩
    · exact hU.roots p (List.mem_append_right _ hp)

theorem Uniform.withDeposits {half : List BridgeTxProof} (hU : b.Uniform)
    (h : ∀ p ∈ half, p ∈ b.depositHalf ∨ (∃ d, p = .depositTxProof d) ∧ b.Joins p) :
    { b with depositHalf := half }.Uniform where
  withdraws := hU.withdraws
  deposits := by
    intro p hp
    rcases h p hp with hp | ⟨hd, -⟩
    · exact hU.deposits p hp
    · exact hd
  roots := by
    intro p hp
    rcases List.mem_append.mp hp with hp | hp
    · exact hU.roots p (List.mem_append_left _ hp)
    · rcases h p hp with hp | ⟨-, hj⟩
      · exact hU.roots p (List.mem_append_right _ hp)
      · exact ⟨hj.root, hj.config⟩

theorem push_ok {proof : BridgeTxProof} (hU : b.Uniform) (hj : b.Joins proof)
    (h : b.push proof = .ok b') : b'.Uniform ∧ b'.batchPoseidonRoot = b.batchPoseidonRoot := by
  -- one more element at the end of a half
  have hend : ∀ half : List BridgeTxProof, ∀ p ∈ half ++ [proof], p ∈ half ∨ p = proof := by
    intro half p hp
    rcases List.mem_append.mp hp with hp | hp
    · exact .inl hp
    · exact .inr (List.mem_singleton.mp hp)
  cases proof with
  | withdrawTxProof w =>
    obtain ⟨-, h⟩ := revertIf_bind_eq_ok.mp h
    obtain rfl := pure_eq_ok.mp h
    refine ⟨hU.withWithdraws fun p hp => ?_, rfl⟩
    rcases hend _ p hp with hp | rfl
    · exact .inl hp
    · exact .inr ⟨⟨w, rfl⟩, hj⟩
  | depositTxProof d =>
    obtain ⟨-, h⟩ := revertIf_bind_eq_ok.mp h
    obtain rfl := pure_eq_ok.mp h
    refine ⟨hU.withDeposits fun p hp => ?_, rfl⟩
    rcases hend _ p hp with hp | rfl
    · exact .inl hp
    · exact .inr ⟨⟨d, rfl⟩, hj⟩

theorem addProof_ok {proof : BridgeTxProof} {full : Bool} (hU : b.Uniform)
    (h : b.addProof proof = .ok (full, b')) : b'.Uniform ∧ b'.batchPoseidonRoot = none := by
  unfold addProof at h
  obtain ⟨-, h⟩ := revertIf_bind_eq_ok.mp h
  obtain ⟨hfinal, h⟩ := revertIf_bind_eq_ok.mp h
  obtain ⟨b₁, hcheck, h⟩ := bind_eq_ok.mp h
  obtain ⟨hU₁, hjoins, hroot₁⟩ := checkRoots_ok hU hcheck
  obtain ⟨b₂, hpush, h⟩ := bind_eq_ok.mp h
  obtain ⟨hU₂, hroot₂⟩ := push_ok hU₁ hjoins hpush
  cases pure_eq_ok.mp h
  exact ⟨hU₂, hroot₂.trans (hroot₁.trans (Option.not_isSome_iff_eq_none.mp hfinal))⟩

/-- A padded half holds what it held and the padding. -/
theorem paddedHalf_ok {half half' : List BridgeTxProof} {padding : Except BatchError BridgeTxProof}
    (h : paddedHalf half padding = .ok half') :
    ∀ p ∈ half', p ∈ half ∨ padding = .ok p := by
  intro p hp
  unfold paddedHalf at h
  split at h
  · obtain ⟨q, hq, h⟩ := bind_eq_ok.mp h
    obtain rfl := pure_eq_ok.mp h
    rcases List.mem_append.mp hp with hp | hp
    · exact .inl hp
    · obtain rfl := List.eq_of_mem_replicate hp
      exact .inr hq
  · cases h
    exact .inl hp

theorem map_eq_ok {α β : Type} {f : α → β} {x : Except BatchError α} {y : β}
    (h : f <$> x = .ok y) : ∃ a, x = .ok a ∧ y = f a := by
  cases x with
  | error e => cases h
  | ok a => exact ⟨a, rfl, (Except.ok.inj h).symm⟩

theorem finalize_inv {pw : PaddingProver WithdrawProof.publicInputs}
    {pd : PaddingProver DepositProof.publicInputs} (hI : b.Inv perm) :
    (b.finalize perm pw pd).2.Inv perm := by
  unfold finalize
  split
  · exact hI
  split
  · exact hI
  rename_i hfinal
  have hnone : b.batchPoseidonRoot = none := Option.not_isSome_iff_eq_none.mp hfinal
  split
  swap
  · exact hI
  rename_i root config hroot hconfig
  split
  · exact hI
  rename_i withdrawHalf hw
  have hUw : { b with withdrawHalf }.Uniform := by
    refine hI.toUniform.withWithdraws fun p hp => ?_
    rcases paddedHalf_ok hw p hp with hp | hp
    · exact .inl hp
    · obtain ⟨w, hprove, rfl⟩ := map_eq_ok hp
      have hroots := Prod.ext_iff.mp (pw.roots _ _ _ hprove)
      exact .inr ⟨⟨w, rfl⟩, hroot.trans (congrArg some hroots.1.symm),
        hconfig.trans (congrArg some hroots.2.symm)⟩
  split
  · exact ⟨hUw, fun r hr => absurd (hnone.symm.trans hr) (by simp)⟩
  rename_i depositHalf hd
  have hUd : { b with withdrawHalf, depositHalf }.Uniform := by
    refine hUw.withDeposits fun p hp => ?_
    rcases paddedHalf_ok hd p hp with hp | hp
    · exact .inl hp
    · obtain ⟨d, hprove, rfl⟩ := map_eq_ok hp
      have hroots := Prod.ext_iff.mp (pd.roots _ _ _ hprove)
      exact .inr ⟨⟨d, rfl⟩, hroot.trans (congrArg some hroots.1.symm),
        hconfig.trans (congrArg some hroots.2.symm)⟩
  have hU : { b with
      withdrawHalf, depositHalf, finalizedProofs := withdrawHalf ++ depositHalf }.Uniform :=
    ⟨hUd.withdraws, hUd.deposits, hUd.roots⟩
  dsimp only
  split
  · exact ⟨hU, fun r hr => absurd (hnone.symm.trans hr) (by simp)⟩
  · rename_i r hr
    obtain ⟨hfull, rfl⟩ := batchPoseidonRoot_ok hr
    obtain ⟨hwfull, hdfull⟩ := Bool.and_eq_true_iff.mp hfull
    refine ⟨⟨hU.withdraws, hU.deposits, hU.roots⟩, fun r hr => ?_⟩
    exact ⟨eq_of_beq hwfull, eq_of_beq hdfull, rfl, (Option.some.inj hr).symm⟩

theorem step_inv (op : Op) (hI : b.Inv perm) : (b.step perm op).Inv perm := by
  cases op with
  | addProof proof =>
    simp only [step]
    split
    · rename_i full b' hadd
      obtain ⟨hU, hnone⟩ := addProof_ok hI.toUniform hadd
      exact ⟨hU, fun r hr => absurd (hnone.symm.trans hr) (by simp)⟩
    · exact hI
  | finalize pw pd => exact finalize_inv hI

/-- Every sequence of calls on a new batch. -/
theorem run_inv_new (ops : List Op) : (ops.foldl (step perm) new).Inv perm := by
  have hfold : ∀ b : BridgeTxBatch, b.Inv perm → (ops.foldl (step perm) b).Inv perm := by
    induction ops with
    | nil => exact fun b hI => hI
    | cons op ops ih => exact fun b hI => ih _ (step_inv op hI)
  exact hfold new new_inv

end BridgeTxBatch

end Doxa.Server
