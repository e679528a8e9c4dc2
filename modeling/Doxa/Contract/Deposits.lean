import Doxa.Contract.Ledger

/-!
# The life of a deposit

A deposit key is `none` until it is registered, then `pending`, and ends `validated` by a
bridge batch or `withdrawn` by its recipient. `DepositEdge` lists what one call may do to
an entry, `Lifecycle` what a whole run may do.

A deposit is credited in the rollup once for each real deposit slot that names it. The
pre-check reads the status of all slots before the first one is validated, so two slots of
one batch can name the same deposit; slots of different batches cannot
(`depositKeys_of_run`).
-/

namespace Doxa.Contract

open Lib Function

variable {env : Env} {s s' : ContractState} {log : List Event} {c : Call} {data : Bytes}
  {key : Bytes32}

/-- What one call may do to a deposit entry. -/
inductive DepositEdge (d : Deposit) : Deposit → Prop
  | same : DepositEdge d d
  | register {d' : Deposit} : d.status = .none → d'.status = .pending → DepositEdge d d'
  | validate : d.status = .pending → DepositEdge d { d with status := .validated }
  | withdraw : d.status = .pending → DepositEdge d { d with status := .withdrawn }

theorem update_edge {deposits : Bytes32 → Deposit} {k : Bytes32} {d : Deposit}
    (h : DepositEdge (deposits k) d) (key : Bytes32) :
    DepositEdge (deposits key) (update deposits k d key) := by
  by_cases hk : key = k
  · subst hk
    rw [update_self]
    exact h
  · rw [update_of_ne hk]
    exact .same

/-- The deposits after a successful `proveBridgeTxBatch`. -/
theorem proveBridge_deposits {proof : Proof} (h : proveBridgeTxBatch env data proof s = .ok s') :
    (∀ i, i < BRIDGE_TX_HALF_SIZE → cdBool data (dSlotOff i) = true →
      (s.deposits (noteKey data i)).status = .pending ∧
        SlotMatches data i (s.deposits (noteKey data i)) ∧
        s'.deposits (noteKey data i) = (s.deposits (noteKey data i)).validate) ∧
      ∀ key, (∀ i, i < BRIDGE_TX_HALF_SIZE → cdBool data (dSlotOff i) = true →
        noteKey data i ≠ key) → s'.deposits key = s.deposits key := by
  obtain ⟨-, hcheck, t, imt', hloop, -, rfl⟩ := proveBridgeTxBatch_parts h
  obtain ⟨wnull, queue, hw, -⟩ :=
    withdrawLoop_spec data (confirm .bridge (piCommitment env data) s) BRIDGE_TX_HALF_SIZE
  rw [hw] at hloop
  refine ⟨fun i hi hreal => ?_, fun key hkey => hloop.untouched key hkey⟩
  have hpending := ((checkBridgeSlot_ok (hcheck i hi)).2 hreal).2
  obtain ⟨htouched, hmatch⟩ := hloop.touched i hi hreal
  exact ⟨hpending, hmatch, htouched⟩

/-- Every call moves every deposit along an edge. -/
theorem step_depositEdge (h : step env c s = .ok s') (key : Bytes32) :
    DepositEdge (s.deposits key) (s'.deposits key) := by
  by_cases hconfig : c.op.isConfig = true
  · rw [(step_config hconfig h).2]
    exact .same
  · obtain ⟨ctx, op⟩ := c
    cases op with
    | depositAndRegister n a m r =>
        obtain ⟨hnone, dep, hpending, rfl⟩ := step_deposit (.inl rfl) h
        exact update_edge (.register hnone hpending) key
    | depositAndRegisterFor n p a m r =>
        obtain ⟨hnone, dep, hpending, rfl⟩ := step_deposit (.inr ⟨p, rfl⟩) h
        exact update_edge (.register hnone hpending) key
    | withdrawPendingDeposit n ok =>
        obtain ⟨hpending, rfl⟩ := withdrawPendingDeposit_ok h
        exact update_edge (.withdraw hpending) key
    | submitTransactionBatch b =>
        obtain ⟨-, -, -, rfl⟩ := submitBatch_ok h
        exact .same
    | submitBridgeTxBatch b =>
        obtain ⟨-, -, -, rfl⟩ := submitBatch_ok h
        exact .same
    | proveTransactionBatch b p =>
        rw [(proveTransactionBatch_ok h).2]
        exact .same
    | proveBridgeTxBatch b p =>
        obtain ⟨htouched, huntouched⟩ := proveBridge_deposits h
        by_cases hkey : ∃ i, i < BRIDGE_TX_HALF_SIZE ∧ cdBool b (dSlotOff i) = true ∧
            noteKey b i = key
        · obtain ⟨i, hi, hreal, rfl⟩ := hkey
          obtain ⟨hpending, -, heq⟩ := htouched i hi hreal
          rw [heq]
          exact .validate hpending
        · have huntouched := huntouched key fun i hi hreal hk => hkey ⟨i, hi, hreal, hk⟩
          rw [huntouched]
          exact .same
    | _ => exact absurd rfl hconfig

/-! ## What a run may do to a deposit -/

/-- A registered deposit keeps its value, asset and recipient, and its status moves from
pending to one of the two final ones at most. -/
def Lifecycle (d d' : Deposit) : Prop :=
  d.status = .none ∨
    (d'.value = d.value ∧ d'.assetId = d.assetId ∧ d'.recipient = d.recipient ∧
      (d'.status = d.status ∨
        (d.status = .pending ∧ (d'.status = .validated ∨ d'.status = .withdrawn))))

theorem lifecycle_refl (d : Deposit) : Lifecycle d d := .inr ⟨rfl, rfl, rfl, .inl rfl⟩

theorem lifecycle_edge {d d' : Deposit} (h : DepositEdge d d') : Lifecycle d d' := by
  cases h with
  | same => exact lifecycle_refl d
  | register hnone => exact .inl hnone
  | validate hpending => exact .inr ⟨rfl, rfl, rfl, .inr ⟨hpending, .inl rfl⟩⟩
  | withdraw hpending => exact .inr ⟨rfl, rfl, rfl, .inr ⟨hpending, .inr rfl⟩⟩

theorem lifecycle_trans {d₁ d₂ d₃ : Deposit} (h₁ : Lifecycle d₁ d₂) (h₂ : Lifecycle d₂ d₃) :
    Lifecycle d₁ d₃ := by
  rcases h₁ with hnone | ⟨hv, ha, hr, hst⟩
  · exact .inl hnone
  · by_cases hnone₁ : d₁.status = .none
    · exact .inl hnone₁
    · rcases h₂ with hnone | ⟨hv', ha', hr', hst'⟩
      · -- a registered deposit does not become unregistered
        rcases hst with hst | ⟨-, hst | hst⟩
        · exact absurd (hst ▸ hnone) hnone₁
        · rw [hst] at hnone
          cases hnone
        · rw [hst] at hnone
          cases hnone
      · refine .inr ⟨hv'.trans hv, ha'.trans ha, hr'.trans hr, ?_⟩
        rcases hst with hst | ⟨hpending, hst⟩
        · rw [hst] at hst'
          exact hst'
        · rcases hst' with hst' | ⟨hpending', -⟩
          · rw [hst']
            exact .inr ⟨hpending, hst⟩
          · rcases hst with hst | hst
            · rw [hst] at hpending'
              cases hpending'
            · rw [hst] at hpending'
              cases hpending'

theorem lifecycle_run (calls : List Call) (key : Bytes32) :
    Lifecycle (s.deposits key) ((run (step env) s calls).deposits key) :=
  run_rel calls (fun t t' => Lifecycle (t.deposits key) (t'.deposits key))
    (fun _ => lifecycle_refl _) (fun _ _ _ => lifecycle_trans)
    fun _ _ _ h => lifecycle_edge (step_depositEdge h key)

/-! ## Slots naming a deposit -/

/-- The deposits named by the real deposit slots of a batch. -/
def depositKeys (kind : BatchKind) (data : Bytes) : List Bytes32 :=
  match kind with
  | .tx => []
  | .bridge => (realDepositSlots data).map (noteKey data)

/-- The deposits named by the confirmed batches, one entry for each real slot. -/
def creditedKeys (log : List Event) : List Bytes32 :=
  (confirmedOf log).flatMap fun b => depositKeys b.1 b.2

theorem creditedKeys_append (l₁ l₂ : List Event) :
    creditedKeys (l₁ ++ l₂) = creditedKeys l₁ ++ creditedKeys l₂ := by
  rw [creditedKeys, confirmedOf_append, List.flatMap_append]
  rfl

theorem creditedKeys_confirmed (kind : BatchKind) (data : Bytes) :
    creditedKeys [.confirmed kind data] = depositKeys kind data := by
  rw [creditedKeys, confirmedOf_confirmed, List.flatMap_singleton]

theorem mem_depositKeys {kind : BatchKind} (h : key ∈ depositKeys kind data) :
    kind = .bridge ∧ ∃ i, i < BRIDGE_TX_HALF_SIZE ∧ cdBool data (dSlotOff i) = true ∧
      noteKey data i = key := by
  cases kind with
  | tx => cases h
  | bridge =>
      simp only [depositKeys, realDepositSlots, List.mem_map, List.mem_filter,
        List.mem_range] at h
      obtain ⟨i, ⟨hi, hreal⟩, hkey⟩ := h
      exact ⟨rfl, i, hi, hreal, hkey⟩

/-- A credited deposit is validated, and no two batches name the same one. -/
structure CreditInv (s : ContractState) (log : List Event) : Prop where
  validated : ∀ key ∈ creditedKeys log, (s.deposits key).status = .validated
  apart : (confirmedOf log).Pairwise fun b b' =>
    (depositKeys b.1 b.2).Disjoint (depositKeys b'.1 b'.2)

/-- A validated deposit stays so. -/
theorem validated_kept {d d' : Deposit} (h : DepositEdge d d') (hd : d.status = .validated) :
    d'.status = .validated := by
  cases h with
  | same => exact hd
  | register hnone =>
      rw [hnone] at hd
      cases hd
  | validate => rfl
  | withdraw hpending =>
      rw [hpending] at hd
      cases hd

/-- Every deposit a confirming call names was pending and is validated by it. -/
theorem confirming_call (h : step env c s = .ok s') {kind : BatchKind}
    (hrec : record c = [.confirmed kind data]) (hkey : key ∈ depositKeys kind data) :
    (s.deposits key).status = .pending ∧ (s'.deposits key).status = .validated := by
  obtain ⟨rfl, i, hi, hreal, rfl⟩ := mem_depositKeys hkey
  obtain ⟨ctx, op⟩ := c
  cases op with
  | proveBridgeTxBatch b p =>
      simp only [record, List.cons.injEq, Event.confirmed.injEq, and_true, true_and] at hrec
      subst hrec
      obtain ⟨hpending, -, heq⟩ := (proveBridge_deposits h).1 i hi hreal
      rw [heq]
      exact ⟨hpending, rfl⟩
  | _ => simp [record] at hrec

theorem step_creditInv (hI : CreditInv s log) (h : step env c s = .ok s') :
    CreditInv s' (log ++ record c) := by
  have hkept : ∀ key ∈ creditedKeys log, (s'.deposits key).status = .validated :=
    fun key hkey => validated_kept (step_depositEdge h key) (hI.validated key hkey)
  rcases step_cases h with ⟨hrec, -⟩ | ⟨kind, data, hrec, -⟩ | ⟨kind, data, hrec, -⟩
  · rw [hrec, List.append_nil]
    exact ⟨hkept, hI.apart⟩
  · have hlog : confirmedOf (log ++ record c) = confirmedOf log := by simp [hrec]
    refine ⟨?_, ?_⟩
    · unfold creditedKeys
      rw [hlog]
      exact hkept
    · rw [hlog]
      exact hI.apart
  · have hcall : ∀ key ∈ depositKeys kind data, (s.deposits key).status = .pending ∧
        (s'.deposits key).status = .validated := fun key hkey => confirming_call h hrec hkey
    rw [hrec]
    refine ⟨?_, ?_⟩
    · intro key hkey
      rw [creditedKeys_append, creditedKeys_confirmed, List.mem_append] at hkey
      rcases hkey with hkey | hkey
      · exact hkept key hkey
      · exact (hcall key hkey).2
    · rw [confirmedOf_append, confirmedOf_confirmed, List.pairwise_append]
      refine ⟨hI.apart, List.pairwise_singleton _ _, fun b hb b' hb' => ?_⟩
      cases List.mem_singleton.mp hb'
      intro key hkey hkey'
      -- a key credited before is validated, one the call names is pending
      have hval := hI.validated key (List.mem_flatMap.mpr ⟨b, hb, hkey⟩)
      rw [(hcall key hkey').1] at hval
      cases hval

theorem depositKeys_of_run (env : Env) (s : ContractState) (calls : List Call) :
    CreditInv (runContract env s calls).1 (runContract env s calls).2 :=
  runLog_inv (step env) record s calls CreditInv
    ⟨fun _ h => (List.not_mem_nil h).elim, List.Pairwise.nil⟩ fun _ _ _ _ _ hI h => step_creditInv hI h

/-- The real deposit slots of the batch name different deposits. -/
def NamesApart (kind : BatchKind) (data : Bytes) : Prop := (depositKeys kind data).Nodup

instance (kind : BatchKind) (data : Bytes) : Decidable (NamesApart kind data) :=
  inferInstanceAs (Decidable (List.Nodup (depositKeys kind data)))

theorem creditedKeys_nodup_iff (hI : CreditInv s log) :
    (creditedKeys log).Nodup ↔ ∀ b ∈ confirmedOf log, NamesApart b.1 b.2 := by
  rw [creditedKeys, List.nodup_flatMap]
  exact and_iff_left hI.apart

/-- A deposit slot whose fields match passes. -/
theorem markDepositSlot_isOk {slot : ℕ}
    (hmatch : cdBool data (dSlotOff slot) = true →
      SlotMatches data slot (s.deposits (noteKey data slot))) :
    ∃ s', markDepositSlot data slot s = .ok s' := by
  unfold markDepositSlot
  split
  · exact ⟨s, rfl⟩
  · rename_i hreal
    rw [Bool.not_eq_false] at hreal
    obtain ⟨hrecip, hvalue, hasset⟩ := hmatch hreal
    simp only [hrecip, hvalue, hasset, ne_eq, not_true_eq_false, revertIf, if_false, bind,
      Except.bind, pure, Except.pure]
    exact ⟨_, rfl⟩

theorem depositLoop_isOk {n : ℕ}
    (hmatch : ∀ i, i < n → cdBool data (dSlotOff i) = true →
      SlotMatches data i (s.deposits (noteKey data i))) :
    ∃ s', tryLoop (markDepositSlot data) n s = .ok s' ∧ DepositLoop data s n s' := by
  refine tryLoop_ok (DepositLoop data s) ?_ ?_
  · exact depositLoop_spec rfl
  · intro i hi t ht
    have hmatch' : cdBool data (dSlotOff i) = true →
        SlotMatches data i (t.deposits (noteKey data i)) := by
      intro hreal
      rcases ht.shape (noteKey data i) with h | h
      · rw [h]
        exact hmatch i hi hreal
      · rw [h]
        exact hmatch i hi hreal
    obtain ⟨t', ht'⟩ := markDepositSlot_isOk hmatch'
    exact ⟨t', ht', markDepositSlot_loop ht ht'⟩

/-- An index whose real slots have unused nullifiers and name a pending deposit passes. -/
theorem checkBridgeSlot_isOk {slot : ℕ}
    (hw : cdBool data (wSlotOff slot) = true →
      s.nullifiers (glHashToU256 (wNullifier data slot)) = false)
    (hd : cdBool data (dSlotOff slot) = true →
      s.nullifiers (glHashToU256 (dNullifier data slot)) = false ∧
        (s.deposits (noteKey data slot)).status = .pending) :
    checkBridgeSlot data s slot = .ok () := by
  apply revertIf_bind_eq_ok.mpr
  refine ⟨fun ⟨hreal, hused⟩ => ?_, ?_⟩
  · rw [hw hreal] at hused
    cases hused
  · by_cases hreal : cdBool data (dSlotOff slot) = true
    · obtain ⟨hunused, hpending⟩ := hd hreal
      rw [hreal]
      simp only [Bool.true_eq_false, if_false, checkNullifier, hunused, hpending, revertIf,
        reduceCtorEq, Bool.false_eq_true, ne_eq, not_true_eq_false, bind, Except.bind, pure,
        Except.pure]
    · rw [Bool.not_eq_true] at hreal
      rw [hreal]
      rfl

/-- A pending batch whose slots pass all checks is confirmed. -/
theorem proveBridge_isOk {p : Proof} (hpaused : s.paused = false)
    (hpending : s.pendingBatches .bridge (piCommitment env data) = true)
    (hverify : env.verifyProof (s.verifier .bridge) p
      (keccakToPublicInputs (piCommitment env data)) = true)
    (hcheck : ∀ i, i < BRIDGE_TX_HALF_SIZE → checkBridgeSlot data s i = .ok ())
    (hmatch : ∀ i, i < BRIDGE_TX_HALF_SIZE → cdBool data (dSlotOff i) = true →
      SlotMatches data i (s.deposits (noteKey data i)))
    (hroom : s.imt.leafCount < 2 ^ s.treeDepth) :
    ∃ s', proveBridgeTxBatch env data p s = .ok s' := by
  have hchecks : ∃ u, tryLoop (fun slot (_ : Unit) => checkBridgeSlot data s slot)
      BRIDGE_TX_HALF_SIZE () = .ok u ∧ True :=
    tryLoop_ok (fun _ _ => True) trivial fun i hi _ _ => ⟨(), hcheck i hi, trivial⟩
  obtain ⟨u, hchecks, -⟩ := hchecks
  obtain ⟨wnull, queue, hw, -⟩ :=
    withdrawLoop_spec data (confirm .bridge (piCommitment env data) s) BRIDGE_TX_HALF_SIZE
  obtain ⟨t, ht, hloop⟩ : ∃ t, tryLoop (markDepositSlot data) BRIDGE_TX_HALF_SIZE
      (forLoop (markWithdrawSlot data) BRIDGE_TX_HALF_SIZE
        (confirm .bridge (piCommitment env data) s)) = .ok t ∧ DepositLoop data _ _ t := by
    refine depositLoop_isOk ?_
    rw [hw]
    exact hmatch
  obtain ⟨imt', himt⟩ : ∃ imt', t.imt.appendLeaf env.compress t.treeDepth (batchRoot data) =
      .ok imt' := by
    rw [hw] at hloop
    obtain ⟨nullifiers, deposits, rfl⟩ := hloop.frame
    exact appendLeaf_isOk hroom
  refine ⟨{ t with imt := imt' }, ?_⟩
  simp only [proveBridgeTxBatch, whenNotPaused, checkProof, appendBatchRoot, revertIf, hpaused,
    hpending, hverify, hchecks, ht, himt, Bool.false_eq_true, Bool.true_eq_false, false_and,
    if_false, bind, Except.bind]

/-- A bridge batch with two real deposit slots for five units of asset `1` from account
`7`, naming the deposits `note 0` and `note 1`. -/
def sampleBridgeBatch (note : ℕ → BitVec 8) : Bytes where
  length := D_SECTION_OFF + BRIDGE_TX_HALF_SIZE * D_SLOT_SIZE
  byte := fun i =>
    let slot := (i - D_SECTION_OFF) / D_SLOT_SIZE
    let off := (i - D_SECTION_OFF) % D_SLOT_SIZE
    if i < D_SECTION_OFF ∨ 2 ≤ slot then 0
    else if off = 3 then 1
    else if off = D_ACCIN_NULL_OFF + 3 then BitVec.ofNat 8 (16 + slot)
    else if off = D_NOTE_COMM_OFF + 31 then note slot
    else if off = D_ETH_ADDR_OFF + 3 then 7
    else if off = D_AMT_OFF + 3 then 5
    else if off = D_ASSET_ID_OFF + 3 then 1
    else 0

/-- Asset `1` is registered, account `7` deposits twice, and the batch is submitted. -/
def depositAndSubmit (data : Bytes) : List Call :=
  [⟨⟨1, 0⟩, .registerAsset 1 9⟩,
    ⟨⟨7, 0⟩, .depositAndRegister 33 1 5 ⟨0, true, 5⟩⟩,
    ⟨⟨7, 0⟩, .depositAndRegister 34 1 5 ⟨5, true, 10⟩⟩,
    ⟨⟨1, 0⟩, .submitBridgeTxBatch data⟩]

def depositAndProve (data : Bytes) : List Call :=
  depositAndSubmit data ++ [⟨⟨2, 0⟩, .proveBridgeTxBatch data sampleProof⟩]

theorem filter_firstTwo {p : ℕ → Bool} {n : ℕ} (h0 : p 0 = true) (h1 : p 1 = true)
    (h : ∀ i, 2 ≤ i → p i = false) : (List.range (n + 2)).filter p = [0, 1] := by
  induction n with
  | zero => simp [List.range_succ, h0, h1]
  | succ n ih =>
    rw [List.range_succ, List.filter_append, ih, List.filter_singleton, h _ (by omega)]
    rfl

theorem sampleBridge_byte {note : ℕ → BitVec 8} {i : ℕ}
    (h : i < D_SECTION_OFF ∨ 2 ≤ (i - D_SECTION_OFF) / D_SLOT_SIZE) :
    (sampleBridgeBatch note).byte i = 0 := if_pos h

theorem sampleBridge_empty (note : ℕ → BitVec 8) {i : ℕ} (hi : 2 ≤ i) :
    cdBool (sampleBridgeBatch note) (dSlotOff i) = false := by
  refine cdBool_zero fun k hk => sampleBridge_byte (.inr ?_)
  rw [Nat.le_div_iff_mul_le (by decide)]
  simp only [dSlotOff, D_SLOT_SIZE]
  omega

/-- The only real slots of the sample batch are the first two deposit slots. -/
theorem sampleBridge_slots {note : ℕ → BitVec 8}
    (h0 : cdBool (sampleBridgeBatch note) (dSlotOff 0) = true)
    (h1 : cdBool (sampleBridgeBatch note) (dSlotOff 1) = true) :
    realDepositSlots (sampleBridgeBatch note) = [0, 1] :=
  filter_firstTwo h0 h1 fun _ => sampleBridge_empty note

/-- The sample contract in which a batch waits for its proof. -/
def waiting (s : ContractState) : ContractState :=
  { s with
    pendingBatches := update s.pendingBatches .bridge (update (s.pendingBatches .bridge) 1 true) }

theorem waiting_pending (s : ContractState) : (waiting s).pendingBatches .bridge 1 = true := by
  show update s.pendingBatches .bridge (update (s.pendingBatches .bridge) 1 true) .bridge 1 = true
  rw [update_self, update_self]

/-- A batch with the header of the empty pool is accepted. -/
theorem submit_waiting (hroot : stateRoot data = 0 ∧ glHashToU256 (cdB32 data 64) = 0)
    (hoperator : s.operator = 1) (hpaused : s.paused = false)
    (hconfirmed : s.imt.confirmedRoots 0 = true) (hmain : s.mainPoolConfigRoot = 0)
    (hnew : s.confirmedBatches .bridge 1 = false ∧ s.pendingBatches .bridge 1 = false) :
    step sampleEnv ⟨⟨1, 0⟩, .submitBridgeTxBatch data⟩ s = .ok (waiting s) := by
  have hpi : piCommitment sampleEnv data = 1 := rfl
  show submitBatch sampleEnv ⟨1, 0⟩ .bridge data s = _
  simp only [submitBatch, onlyOperator, whenNotPaused, revertIf_bind_eq_ok, pure_eq_ok, hpi]
  refine ⟨not_not.mpr hoperator.symm, ?_, ?_, ?_, ?_, ?_, rfl⟩
  · rw [hpaused]
    decide
  · rw [hroot.1, hconfirmed]
    decide
  · rw [hroot.2, hmain]
    decide
  · rw [hnew.1]
    decide
  · rw [hnew.2]
    decide

theorem sampleBridge_names : ∀ i, i = 0 ∨ i = 1 →
    noteKey (sampleBridgeBatch fun _ => 33) i = 33 ∧
      SlotMatches (sampleBridgeBatch fun _ => 33) i ⟨5, 7, .pending, 0, 1⟩ := by
  rintro i (rfl | rfl)
  · exact ⟨by decide +kernel, by decide +kernel, by decide +kernel, by decide +kernel⟩
  · exact ⟨by decide +kernel, by decide +kernel, by decide +kernel, by decide +kernel⟩

/-- The batch is confirmed in every state in which it is pending and deposit `33` is the one
it names. -/
theorem sampleBridge_isOk {st : ContractState} (hpaused : st.paused = false)
    (hpending : st.pendingBatches .bridge 1 = true) (hunused : ∀ x, st.nullifiers x = false)
    (hdeposit : st.deposits 33 = ⟨5, 7, .pending, 0, 1⟩)
    (hroom : st.imt.leafCount < 2 ^ st.treeDepth) : ∃ s', step sampleEnv
    ⟨⟨2, 0⟩, .proveBridgeTxBatch (sampleBridgeBatch fun _ => 33) sampleProof⟩ st = .ok s' := by
  have hfirst : ∀ i, cdBool (sampleBridgeBatch fun _ => 33) (dSlotOff i) = true →
      i = 0 ∨ i = 1 := by
    intro i hreal
    by_contra hi
    rw [sampleBridge_empty _ (by omega)] at hreal
    cases hreal
  refine proveBridge_isOk hpaused hpending rfl ?_ ?_ hroom
  · intro i hi
    refine checkBridgeSlot_isOk (fun _ => hunused _) fun hreal => ⟨hunused _, ?_⟩
    rw [(sampleBridge_names i (hfirst i hreal)).1, hdeposit]
  · intro i hi hreal
    obtain ⟨hkey, hmatch⟩ := sampleBridge_names i (hfirst i hreal)
    rw [hkey, hdeposit]
    exact hmatch

end Doxa.Contract
