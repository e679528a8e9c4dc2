import Doxa.Contract.Entry

/-!
# What each call does

One inversion lemma for each external function: if the call succeeds, its guards held and
the new state is the given update of the old one. The slot loops of the prove functions
come first, with `slotNullifiers`, the nullifiers of the real slots of a batch decoded as
the contract decodes them. The configuration calls change neither the ledger nor the
deposits (`step_config`).
-/

namespace Doxa.Contract

open Lib Function

/-! ## Nullifiers of a batch -/

def realTxSlots (data : Bytes) : List ℕ :=
  (List.range PRIV_TX_BATCH_SIZE).filter fun i => cdBool data (txSlotOff i)

def realWithdrawSlots (data : Bytes) : List ℕ :=
  (List.range BRIDGE_TX_HALF_SIZE).filter fun i => cdBool data (wSlotOff i)

def realDepositSlots (data : Bytes) : List ℕ :=
  (List.range BRIDGE_TX_HALF_SIZE).filter fun i => cdBool data (dSlotOff i)

/-- The decoded nullifiers of each real slot of a batch. -/
def slotNullifiers (kind : BatchKind) (data : Bytes) : List (List U256) :=
  match kind with
  | .tx => (realTxSlots data).map fun i => (txNullifiers data i).map glHashToU256
  | .bridge =>
    (realWithdrawSlots data).map (fun i => [glHashToU256 (wNullifier data i)]) ++
      (realDepositSlots data).map fun i => [glHashToU256 (dNullifier data i)]

def batchNullifiers (kind : BatchKind) (data : Bytes) : List U256 :=
  (slotNullifiers kind data).flatten

variable {data : Bytes} {x : U256}

theorem mem_txBatch : x ∈ batchNullifiers .tx data ↔
    ∃ i, i < PRIV_TX_BATCH_SIZE ∧ cdBool data (txSlotOff i) = true ∧
      x ∈ (txNullifiers data i).map glHashToU256 := by
  simp only [batchNullifiers, slotNullifiers, realTxSlots, List.mem_flatten, List.mem_map,
    List.mem_filter, List.mem_range]
  constructor
  · rintro ⟨_, ⟨i, ⟨hi, hreal⟩, rfl⟩, hx⟩
    exact ⟨i, hi, hreal, List.mem_map.mp hx⟩
  · rintro ⟨i, hi, hreal, hx⟩
    exact ⟨_, ⟨i, ⟨hi, hreal⟩, rfl⟩, List.mem_map.mpr hx⟩

theorem mem_bridgeBatch : x ∈ batchNullifiers .bridge data ↔
    (∃ i, i < BRIDGE_TX_HALF_SIZE ∧ cdBool data (wSlotOff i) = true ∧
      glHashToU256 (wNullifier data i) = x) ∨
    ∃ i, i < BRIDGE_TX_HALF_SIZE ∧ cdBool data (dSlotOff i) = true ∧
      glHashToU256 (dNullifier data i) = x := by
  simp only [batchNullifiers, slotNullifiers, realWithdrawSlots, realDepositSlots,
    List.flatten_append, List.mem_append, List.mem_flatten, List.mem_map, List.mem_filter,
    List.mem_range]
  refine or_congr ?_ ?_
  all_goals
    constructor
    · rintro ⟨_, ⟨i, ⟨hi, hreal⟩, rfl⟩, hx⟩
      exact ⟨i, hi, hreal, (List.mem_singleton.mp hx).symm⟩
    · rintro ⟨i, hi, hreal, rfl⟩
      exact ⟨_, ⟨i, ⟨hi, hreal⟩, rfl⟩, List.mem_singleton_self _⟩

/-! ## The slot loops -/

theorem checkNullifier_ok {nullifiers : U256 → Bool} {n : Bytes32} {u : Unit}
    (h : checkNullifier nullifiers n = .ok u) : nullifiers (glHashToU256 n) = false :=
  Bool.eq_false_iff.mpr (revertIf_eq_ok.mp h)

/-- A slot that passed its pre-check is padding or has only unused nullifiers. -/
theorem checkTxSlot_ok {nullifiers : U256 → Bool} {slot : ℕ} {u : Unit}
    (h : checkTxSlot data nullifiers slot = .ok u) (hreal : cdBool data (txSlotOff slot) = true)
    (hx : x ∈ (txNullifiers data slot).map glHashToU256) : nullifiers x = false := by
  unfold checkTxSlot at h
  rw [if_neg (by rw [hreal]; decide), bind_eq_ok] at h
  obtain ⟨_, hacc, hnotes⟩ := h
  obtain ⟨-, hnotes⟩ := tryLoop_check (fun _ _ _ _ => rfl) hnotes
  rw [txNullifiers, List.map_cons, List.mem_cons, List.map_map, List.mem_map] at hx
  rcases hx with rfl | ⟨j, hj, rfl⟩
  · exact checkNullifier_ok hacc
  · exact checkNullifier_ok (hnotes j (List.mem_range.mp hj))

theorem update_true {α : Type*} [DecidableEq α] (f : α → Bool) (a y : α) :
    update f a true y = true ↔ f y = true ∨ a = y := by
  by_cases h : y = a
  · subst h
    simp
  · rw [update_of_ne h]
    exact ⟨.inl, fun h' => h'.resolve_right fun e => h e.symm⟩

theorem markTxSlot_true (slot : ℕ) (nullifiers : U256 → Bool) (y : U256) :
    markTxSlot data slot nullifiers y = true ↔ nullifiers y = true ∨
      (cdBool data (txSlotOff slot) = true ∧ y ∈ (txNullifiers data slot).map glHashToU256) := by
  unfold markTxSlot
  split
  · rename_i hpad
    simp [hpad]
  · rename_i hreal
    rw [Bool.not_eq_false] at hreal
    have hloop := forLoop_mark (P := fun j y =>
      glHashToU256 (cdB32 data (txSlotOff slot + TX_NOTE_IN_OFF + j * 32)) = y)
      (fun j f y => update_true f _ y) NOTE_BATCH
    rw [hloop, update_true]
    simp only [hreal, true_and, txNullifiers, List.map_cons, List.mem_cons, List.map_map,
      List.mem_map, List.mem_range, comp_apply, or_assoc, eq_comm (a := y)]

/-- What the withdraw loop does. -/
theorem withdrawLoop_spec (data : Bytes) (s : ContractState) (n : ℕ) :
    ∃ nullifiers queue, forLoop (markWithdrawSlot data) n s =
        { s with nullifiers := nullifiers, pendingWithdrawals := queue } ∧
      ∀ y, nullifiers y = true ↔ s.nullifiers y = true ∨
        ∃ i, i < n ∧ cdBool data (wSlotOff i) = true ∧ glHashToU256 (wNullifier data i) = y := by
  induction n with
  | zero => exact ⟨s.nullifiers, s.pendingWithdrawals, rfl, by simp⟩
  | succ n ih =>
      obtain ⟨nullifiers, queue, hloop, hspec⟩ := ih
      rw [forLoop_succ, hloop]
      unfold markWithdrawSlot
      split
      · rename_i hpad
        refine ⟨nullifiers, queue, rfl, fun y => ?_⟩
        rw [hspec, Nat.exists_lt_succ_right]
        simp [hpad]
      · rename_i hreal
        rw [Bool.not_eq_false] at hreal
        refine ⟨_, _, rfl, fun y => ?_⟩
        rw [update_true, hspec, Nat.exists_lt_succ_right, or_assoc]
        simp [hreal]

/-- The deposit a slot has just validated. -/
def Deposit.validate (dep : Deposit) : Deposit := { dep with status := .validated }

/-- The fields a deposit slot carries are those of the deposit. -/
def SlotMatches (data : Bytes) (slot : ℕ) (dep : Deposit) : Prop :=
  dep.recipient = cdGLAddress data (dSlotOff slot + D_ETH_ADDR_OFF) ∧
    dep.value = cdGLU256 data (dSlotOff slot + D_AMT_OFF) ∧
    dep.assetId = cdGLU64 data (dSlotOff slot + D_ASSET_ID_OFF)

/-- A real deposit slot that passed. -/
theorem markDepositSlot_ok {slot : ℕ} {s s' : ContractState}
    (h : markDepositSlot data slot s = .ok s') :
    (cdBool data (dSlotOff slot) = false ∧ s' = s) ∨
      (cdBool data (dSlotOff slot) = true ∧ SlotMatches data slot (s.deposits (noteKey data slot)) ∧
        s' = { s with
          nullifiers := update s.nullifiers (glHashToU256 (dNullifier data slot)) true
          deposits := update s.deposits (noteKey data slot)
            (s.deposits (noteKey data slot)).validate }) := by
  unfold markDepositSlot at h
  split at h
  · rename_i hpad
    cases h
    exact .inl ⟨hpad, rfl⟩
  · rename_i hreal
    rw [Bool.not_eq_false] at hreal
    simp only [revertIf_bind_eq_ok, not_not, pure_eq_ok] at h
    obtain ⟨hrecip, hvalue, hasset, rfl⟩ := h
    exact .inr ⟨hreal, ⟨hrecip, hvalue, hasset⟩, rfl⟩

/-- What the deposit loop does. -/
structure DepositLoop (data : Bytes) (s : ContractState) (n : ℕ) (t : ContractState) : Prop where
  frame : ∃ nullifiers deposits, t = { s with nullifiers := nullifiers, deposits := deposits }
  nullifiers : ∀ y, t.nullifiers y = true ↔ s.nullifiers y = true ∨
    ∃ i, i < n ∧ cdBool data (dSlotOff i) = true ∧ glHashToU256 (dNullifier data i) = y
  touched : ∀ i, i < n → cdBool data (dSlotOff i) = true →
    t.deposits (noteKey data i) = (s.deposits (noteKey data i)).validate ∧
      SlotMatches data i (s.deposits (noteKey data i))
  untouched : ∀ key, (∀ i, i < n → cdBool data (dSlotOff i) = true → noteKey data i ≠ key) →
    t.deposits key = s.deposits key
  shape : ∀ key, t.deposits key = s.deposits key ∨ t.deposits key = (s.deposits key).validate

theorem markDepositSlot_loop {s t t' : ContractState} {n : ℕ} (ht : DepositLoop data s n t)
    (h : markDepositSlot data n t = .ok t') : DepositLoop data s (n + 1) t' := by
  rcases markDepositSlot_ok h with ⟨hpad, rfl⟩ | ⟨hreal, hmatch, ht'⟩
  · refine ⟨ht.frame, fun y => ?_, fun i hi hri => ?_, fun key hkey => ?_, ht.shape⟩
    · rw [ht.nullifiers, Nat.exists_lt_succ_right]
      simp [hpad]
    · rcases Nat.lt_succ_iff_lt_or_eq.mp hi with hi | rfl
      · exact ht.touched i hi hri
      · rw [hpad] at hri
        cases hri
    · exact ht.untouched key fun i hi => hkey i (Nat.lt_succ_of_lt hi)
  · -- a key named twice is validated twice, which is the same as once
    have hold : (t.deposits (noteKey data n)).validate =
        (s.deposits (noteKey data n)).validate := by
      rcases ht.shape (noteKey data n) with h | h
      · rw [h]
      · rw [h]
        rfl
    have hmatch' : SlotMatches data n (s.deposits (noteKey data n)) := by
      rcases ht.shape (noteKey data n) with h | h
      · rwa [h] at hmatch
      · rw [h] at hmatch
        exact hmatch
    have hnullifiers : t'.nullifiers =
        update t.nullifiers (glHashToU256 (dNullifier data n)) true := by rw [ht']
    have hdeposits : t'.deposits = update t.deposits (noteKey data n)
        (t.deposits (noteKey data n)).validate := by rw [ht']
    refine ⟨?_, fun y => ?_, fun i hi hri => ?_, fun key hkey => ?_, fun key => ?_⟩
    · obtain ⟨nullifiers, deposits, hframe⟩ := ht.frame
      exact ⟨_, _, ht'.trans (by rw [hframe])⟩
    · rw [hnullifiers, update_true, ht.nullifiers, Nat.exists_lt_succ_right, or_assoc]
      simp [hreal]
    · rw [hdeposits]
      by_cases hkey : noteKey data i = noteKey data n
      · rw [hkey, update_self]
        refine ⟨hold, ?_⟩
        rcases Nat.lt_succ_iff_lt_or_eq.mp hi with hi | rfl
        · rw [← hkey]
          exact (ht.touched i hi hri).2
        · exact hmatch'
      · rw [update_of_ne hkey]
        rcases Nat.lt_succ_iff_lt_or_eq.mp hi with hi | rfl
        · exact ht.touched i hi hri
        · exact absurd rfl hkey
    · rw [hdeposits, update_of_ne (hkey n (Nat.lt_succ_self n) hreal).symm]
      exact ht.untouched key fun i hi => hkey i (Nat.lt_succ_of_lt hi)
    · rw [hdeposits]
      by_cases hkey : key = noteKey data n
      · subst hkey
        rw [update_self]
        exact .inr hold
      · rw [update_of_ne hkey]
        exact ht.shape key

theorem depositLoop_spec {s s' : ContractState} {n : ℕ}
    (h : tryLoop (markDepositSlot data) n s = .ok s') : DepositLoop data s n s' := by
  refine tryLoop_inv (DepositLoop data s) ?_ (fun i _ t t' ht hi => markDepositSlot_loop ht hi) h
  exact ⟨⟨s.nullifiers, s.deposits, rfl⟩, by simp, fun i hi => absurd hi (Nat.not_lt_zero i),
    fun _ _ => rfl, fun _ => .inl rfl⟩

/-! ## What each call does -/

variable {env : Env} {ctx : Ctx} {s s' : ContractState} {kind : BatchKind}

theorem submitBatch_ok (h : submitBatch env ctx kind data s = .ok s') :
    s.imt.confirmedRoots (stateRoot data) = true ∧
      s.confirmedBatches kind (piCommitment env data) = false ∧
      s.pendingBatches kind (piCommitment env data) = false ∧
      s' = { s with
        pendingBatches := update s.pendingBatches kind
          (update (s.pendingBatches kind) (piCommitment env data) true) } := by
  simp only [submitBatch, onlyOperator, whenNotPaused, revertIf_bind_eq_ok, not_not, pure_eq_ok,
    Bool.not_eq_false, Bool.not_eq_true] at h
  obtain ⟨-, -, hroot, -, hconf, hpend, rfl⟩ := h
  exact ⟨hroot, hconf, hpend, rfl⟩

theorem checkProof_ok {pi : Bytes32} {p : Proof} {u : Unit}
    (h : checkProof env kind pi p s = .ok u) : s.pendingBatches kind pi = true := by
  simp only [checkProof, revertIf_bind_eq_ok, Bool.not_eq_false] at h
  exact h.2.1

theorem appendBatchRoot_ok (h : appendBatchRoot env data s = .ok s') :
    ∃ imt', s.imt.appendLeaf env.compress s.treeDepth (batchRoot data) = .ok imt' ∧
      s' = { s with imt := imt' } := by
  unfold appendBatchRoot at h
  split at h
  · rename_i imt' himt
    cases h
    exact ⟨imt', himt, rfl⟩
  · cases h

/-- What a successful prove call does to the ledger. -/
structure Confirms (env : Env) (kind : BatchKind) (data : Bytes) (s s' : ContractState) :
    Prop where
  pending : s.pendingBatches kind (piCommitment env data) = true
  unused : ∀ x ∈ batchNullifiers kind data, s.nullifiers x = false
  pendingBatches : s'.pendingBatches = update s.pendingBatches kind
    (update (s.pendingBatches kind) (piCommitment env data) false)
  confirmedBatches : s'.confirmedBatches = update s.confirmedBatches kind
    (update (s.confirmedBatches kind) (piCommitment env data) true)
  nullifiers : ∀ y, s'.nullifiers y = true ↔
    s.nullifiers y = true ∨ y ∈ batchNullifiers kind data
  appended : s.imt.appendLeaf env.compress s.treeDepth (batchRoot data) = .ok s'.imt
  treeDepth : s'.treeDepth = s.treeDepth

theorem proveTransactionBatch_ok {proof : Proof}
    (h : proveTransactionBatch env data proof s = .ok s') :
    Confirms env .tx data s s' ∧ s'.deposits = s.deposits := by
  simp only [proveTransactionBatch, bind_eq_ok] at h
  obtain ⟨_, -, _, hproof, _, hcheck, h⟩ := h
  obtain ⟨-, hcheck⟩ := tryLoop_check (fun _ _ _ _ => rfl) hcheck
  obtain ⟨imt', himt, rfl⟩ := appendBatchRoot_ok h
  refine ⟨⟨checkProof_ok hproof, ?_, rfl, rfl, ?_, himt, rfl⟩, rfl⟩
  · intro x hx
    obtain ⟨i, hi, hreal, hx⟩ := mem_txBatch.mp hx
    exact checkTxSlot_ok (hcheck i hi) hreal hx
  · intro y
    rw [mem_txBatch]
    exact forLoop_mark markTxSlot_true PRIV_TX_BATCH_SIZE s.nullifiers y

/-- A pre-checked index: the withdraw slot is padding or unused, and so is the deposit
slot, which names a pending deposit. -/
theorem checkBridgeSlot_ok {slot : ℕ} {u : Unit} (h : checkBridgeSlot data s slot = .ok u) :
    (cdBool data (wSlotOff slot) = true →
      s.nullifiers (glHashToU256 (wNullifier data slot)) = false) ∧
    (cdBool data (dSlotOff slot) = true →
      s.nullifiers (glHashToU256 (dNullifier data slot)) = false ∧
        (s.deposits (noteKey data slot)).status = .pending) := by
  unfold checkBridgeSlot at h
  rw [revertIf_bind_eq_ok] at h
  obtain ⟨hw, h⟩ := h
  refine ⟨fun hreal => ?_, fun hreal => ?_⟩
  · rw [Bool.eq_false_iff]
    intro hused
    exact hw ⟨hreal, hused⟩
  · rw [hreal] at h
    simp only [Bool.true_eq_false, if_false, bind_eq_ok, revertIf_eq_ok, not_not] at h
    obtain ⟨_, hnull, _, -, hpending⟩ := h
    exact ⟨checkNullifier_ok hnull, hpending⟩

/-- The parts of a successful `proveBridgeTxBatch`. -/
theorem proveBridgeTxBatch_parts {proof : Proof}
    (h : proveBridgeTxBatch env data proof s = .ok s') :
    s.pendingBatches .bridge (piCommitment env data) = true ∧
      (∀ i, i < BRIDGE_TX_HALF_SIZE → checkBridgeSlot data s i = .ok ()) ∧
      ∃ t imt', DepositLoop data (forLoop (markWithdrawSlot data) BRIDGE_TX_HALF_SIZE
          (confirm .bridge (piCommitment env data) s)) BRIDGE_TX_HALF_SIZE t ∧
        t.imt.appendLeaf env.compress t.treeDepth (batchRoot data) = .ok imt' ∧
        s' = { t with imt := imt' } := by
  simp only [proveBridgeTxBatch, bind_eq_ok] at h
  obtain ⟨_, -, _, hproof, _, hcheck, t, hloop, h⟩ := h
  obtain ⟨-, hcheck⟩ := tryLoop_check (fun _ _ _ _ => rfl) hcheck
  obtain ⟨imt', himt, rfl⟩ := appendBatchRoot_ok h
  exact ⟨checkProof_ok hproof, hcheck, t, imt', depositLoop_spec hloop, himt, rfl⟩

theorem proveBridgeTxBatch_ok {proof : Proof}
    (h : proveBridgeTxBatch env data proof s = .ok s') : Confirms env .bridge data s s' := by
  obtain ⟨hpend, hcheck, t, imt', hloop, himt, rfl⟩ := proveBridgeTxBatch_parts h
  obtain ⟨wnull, queue, hw, hwspec⟩ :=
    withdrawLoop_spec data (confirm .bridge (piCommitment env data) s) BRIDGE_TX_HALF_SIZE
  rw [hw] at hloop
  obtain ⟨dnull, deposits, rfl⟩ := hloop.frame
  refine ⟨hpend, ?_, rfl, rfl, ?_, himt, rfl⟩
  · intro x hx
    rcases mem_bridgeBatch.mp hx with ⟨i, hi, hreal, rfl⟩ | ⟨i, hi, hreal, rfl⟩
    · exact (checkBridgeSlot_ok (hcheck i hi)).1 hreal
    · exact ((checkBridgeSlot_ok (hcheck i hi)).2 hreal).1
  · intro y
    rw [mem_bridgeBatch, ← or_assoc]
    exact (hloop.nullifiers y).trans (or_congr_left (hwspec y))

theorem depositInternal_ok {noteCommitment : Bytes32} {payer recipient : Address}
    {assetId maxAmount : U256} {reply : TokenReply}
    (h : depositAndRegisterInternal ctx noteCommitment payer recipient assetId maxAmount reply s =
      .ok s') :
    (s.deposits noteCommitment).status = .none ∧
      ∃ dep : Deposit, dep.status = .pending ∧ dep.recipient = recipient ∧
        dep.assetId = assetId ∧
        s' = { s with deposits := update s.deposits noteCommitment dep } := by
  simp only [depositAndRegisterInternal, checkDeposit, registerDeposit, bind_eq_ok,
    revertIf_eq_ok, not_not, pure_eq_ok] at h
  obtain ⟨_, ⟨_, hnone, -⟩, _, -, _, -, rfl⟩ := h
  exact ⟨hnone, _, rfl, rfl, rfl, rfl⟩

theorem withdrawPendingDeposit_ok {noteCommitment : Bytes32} {transferOk : Bool}
    (h : withdrawPendingDeposit ctx noteCommitment transferOk s = .ok s') :
    (s.deposits noteCommitment).status = .pending ∧
      s' = { s with
        deposits := update s.deposits noteCommitment
          { s.deposits noteCommitment with status := .withdrawn } } := by
  simp only [withdrawPendingDeposit, whenNotPaused, revertIf_bind_eq_ok, not_not,
    pure_eq_ok] at h
  obtain ⟨-, -, hpending, -, -, -, -, rfl⟩ := h
  exact ⟨hpending, rfl⟩

/-- The part of the state the batches determine is the same. -/
structure SameLedger (s s' : ContractState) : Prop where
  treeDepth : s'.treeDepth = s.treeDepth
  imt : s'.imt = s.imt
  nullifiers : s'.nullifiers = s.nullifiers
  pendingBatches : s'.pendingBatches = s.pendingBatches
  confirmedBatches : s'.confirmedBatches = s.confirmedBatches

/-- The calls that touch neither batches nor deposits. -/
def Op.isConfig : Op → Bool
  | .setTxVerifier _ | .setBridgeTxVerifier _ | .setOperator _ | .setPaused _
  | .setWithdrawalDelay _ | .registerAsset _ _ | .assignSubpoolOwner _ _
  | .updateSubpoolRoot _ _ _ | .flushPendingWithdrawals _ => true
  | _ => false

theorem step_config {c : Call} (hc : c.op.isConfig = true) (h : step env c s = .ok s') :
    SameLedger s s' ∧ s'.deposits = s.deposits := by
  obtain ⟨ctx, op⟩ := c
  cases op with
  | setTxVerifier v =>
      simp only [step, setTxVerifier, setVerifier, onlyOperator, revertIf_bind_eq_ok,
        pure_eq_ok] at h
      obtain ⟨-, -, rfl⟩ := h
      exact ⟨⟨rfl, rfl, rfl, rfl, rfl⟩, rfl⟩
  | setBridgeTxVerifier v =>
      simp only [step, setBridgeTxVerifier, setVerifier, onlyOperator, revertIf_bind_eq_ok,
        pure_eq_ok] at h
      obtain ⟨-, -, rfl⟩ := h
      exact ⟨⟨rfl, rfl, rfl, rfl, rfl⟩, rfl⟩
  | setOperator o =>
      simp only [step, setOperator, onlyOperator, revertIf_bind_eq_ok, pure_eq_ok] at h
      obtain ⟨-, -, rfl⟩ := h
      exact ⟨⟨rfl, rfl, rfl, rfl, rfl⟩, rfl⟩
  | setPaused b =>
      simp only [step, setPaused, onlyOperator, revertIf_bind_eq_ok, pure_eq_ok] at h
      obtain ⟨-, rfl⟩ := h
      exact ⟨⟨rfl, rfl, rfl, rfl, rfl⟩, rfl⟩
  | setWithdrawalDelay d =>
      simp only [step, setWithdrawalDelay, onlyOperator, revertIf_bind_eq_ok, pure_eq_ok] at h
      obtain ⟨-, rfl⟩ := h
      exact ⟨⟨rfl, rfl, rfl, rfl, rfl⟩, rfl⟩
  | registerAsset a t =>
      simp only [step, registerAsset, onlyOperator, revertIf_bind_eq_ok, pure_eq_ok] at h
      obtain ⟨-, -, -, -, -, rfl⟩ := h
      exact ⟨⟨rfl, rfl, rfl, rfl, rfl⟩, rfl⟩
  | assignSubpoolOwner i o =>
      simp only [step, assignSubpoolOwner, onlyOperator, revertIf_bind_eq_ok, pure_eq_ok] at h
      obtain ⟨-, -, -, -, rfl⟩ := h
      exact ⟨⟨rfl, rfl, rfl, rfl, rfl⟩, rfl⟩
  | updateSubpoolRoot i r sib =>
      simp only [step, updateSubpoolRoot, whenNotPaused, revertIf_bind_eq_ok, pure_eq_ok] at h
      obtain ⟨-, -, -, -, -, rfl⟩ := h
      exact ⟨⟨rfl, rfl, rfl, rfl, rfl⟩, rfl⟩
  | flushPendingWithdrawals ok =>
      simp only [step, flushPendingWithdrawals, bind_eq_ok, pure_eq_ok] at h
      obtain ⟨_, -, rfl⟩ := h
      exact ⟨⟨rfl, rfl, rfl, rfl, rfl⟩, rfl⟩
  | _ => cases hc

/-- The two ways of registering a deposit. -/
theorem step_deposit {c : Call} {noteCommitment : Bytes32} {assetId maxAmount : U256}
    {reply : TokenReply}
    (hc : c.op = .depositAndRegister noteCommitment assetId maxAmount reply ∨
      ∃ payer, c.op = .depositAndRegisterFor noteCommitment payer assetId maxAmount reply)
    (h : step env c s = .ok s') :
    (s.deposits noteCommitment).status = .none ∧
      ∃ dep : Deposit, dep.status = .pending ∧
        s' = { s with deposits := update s.deposits noteCommitment dep } := by
  obtain ⟨ctx, op⟩ := c
  have hinternal : ∃ payer recipient, depositAndRegisterInternal ctx noteCommitment payer recipient
      assetId maxAmount reply s = .ok s' := by
    rcases hc with rfl | ⟨payer, rfl⟩
    · simp only [step, depositAndRegister, bind_eq_ok] at h
      obtain ⟨_, -, h⟩ := h
      exact ⟨_, _, h⟩
    · simp only [step, depositAndRegisterFor, bind_eq_ok] at h
      obtain ⟨_, -, h⟩ := h
      exact ⟨_, _, h⟩
  obtain ⟨payer, recipient, hinternal⟩ := hinternal
  obtain ⟨hnone, dep, hpending, -, -, hs'⟩ := depositInternal_ok hinternal
  exact ⟨hnone, dep, hpending, hs'⟩

end Doxa.Contract
