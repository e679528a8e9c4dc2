import Doxa.Circuit.Padding
import Doxa.Contract.Deposits
import Doxa.Contract.Reads

/-!
# Asset ids

`registerAsset` admits every nonzero `uint256` and the circuits expose any field element as
an asset id, but the contract keeps only 32 bits of the id in a slot. So a slot is handled
under its own id exactly when that id has 32 bits, and a deposit can be validated exactly
when the id it was registered under has. With larger ids the slot of one asset validates and
pays out another (`asset_id_truncated`).
-/

namespace Doxa.Contract

open Lib Circuit Server Trees Function

/-- The contract handles the deposit in slot `s` under the id of its public inputs: it reads
that id, and what it validates is a deposit of that id. -/
structure DepositIdFaithful (data : Bytes) (s : ℕ) (t : DepositTxPublicTargets) : Prop where
  asset_id : (cdGLU64 data (dSlotOff s + D_ASSET_ID_OFF)).toNat = t.assetId.val
  validates : ∀ (env : Env) (proof : Proof) (st st' : ContractState),
    proveBridgeTxBatch env data proof st = .ok st' → t.notFakeTx ≠ 0 →
    (st'.deposits (noteKey data s)).status = .validated ∧
      (st'.deposits (noteKey data s)).assetId.toNat = t.assetId.val

/-- The contract handles the withdrawal in slot `s` under the ids of its public inputs: it
reads these ids, and pays what they are registered for. -/
structure WithdrawIdFaithful (data : Bytes) (s : ℕ) (t : WithdrawTxPublicTargets) : Prop where
  asset_ids : ∀ j, ((readWithdrawal data s).assetIds j).toNat = (t.assetIds j).val
  pays : ∀ st : ContractState, payments st (readWithdrawal data s) = payments st
    { readWithdrawal data s with assetIds := fun j => BitVec.ofNat 256 (t.assetIds j).val }

/-- The batch may be proved: all that is left to the deposits it names. -/
structure Ready (env : Env) (proof : Proof) (data : Bytes) (st : ContractState) : Prop where
  paused : st.paused = false
  pending : st.pendingBatches .bridge (piCommitment env data) = true
  verified : env.verifyProof (st.verifier .bridge) proof
    (keccakToPublicInputs (piCommitment env data)) = true
  unused : ∀ x ∈ batchNullifiers .bridge data, st.nullifiers x = false
  room : st.imt.leafCount < 2 ^ st.treeDepth

/-- Some batch with a real slot for the note and the id of `dep` validates it. -/
def CanValidate (noteComm : HashOut) (dep : Deposit) : Prop :=
  ∃ data s t, HasDeposit data s t ∧ t.notFakeTx = 1 ∧ t.noteComm = noteComm ∧
    t.assetId.val = dep.assetId.toNat ∧ ∀ env proof st, Ready env proof data st →
      st.deposits (hashToPreimageBytes32 noteComm) = dep →
      ∃ st', proveBridgeTxBatch env data proof st = .ok st' ∧
        st'.deposits (hashToPreimageBytes32 noteComm) = dep.validate

section Slots

variable {data : Bytes} {s : ℕ}

theorem HasDeposit.lt {t : DepositTxPublicTargets} (h : HasDeposit data s t) :
    s < BRIDGE_TX_HALF_SIZE := by
  obtain ⟨-, -, -, -, hs, -, -⟩ := h
  exact hs

theorem HasDeposit.real {t : DepositTxPublicTargets} (h : HasDeposit data s t)
    (hreal : t.notFakeTx ≠ 0) : cdBool data (dSlotOff s) = true := by
  rw [h.reads.not_fake_tx, decide_eq_true_iff]
  exact hreal

theorem deposit_faithful {t : DepositTxPublicTargets} (h : HasDeposit data s t)
    (ht : t.assetId.val < 2 ^ 32) : DepositIdFaithful data s t := by
  have hread := h.reads.asset_id.trans (Nat.mod_eq_of_lt ht)
  refine ⟨hread, fun env proof st st' hprove hreal => ?_⟩
  obtain ⟨-, hmatch, hafter⟩ := (proveBridge_deposits hprove).1 s h.lt (h.real hreal)
  rw [hafter]
  refine ⟨rfl, ?_⟩
  rw [← hread, ← hmatch.2.2]
  rfl

theorem withdraw_faithful {t : WithdrawTxPublicTargets} (h : HasWithdraw data s t)
    (ht : ∀ j, (t.assetIds j).val < 2 ^ 32) : WithdrawIdFaithful data s t := by
  have hread : ∀ j, ((readWithdrawal data s).assetIds j).toNat = (t.assetIds j).val :=
    fun j => (h.reads.asset_ids j).trans (Nat.mod_eq_of_lt (ht j))
  refine ⟨hread, fun st => ?_⟩
  have hids : (readWithdrawal data s).assetIds = fun j => BitVec.ofNat 256 (t.assetIds j).val := by
    funext j
    rw [← hread j, BitVec.ofNat_toNat, BitVec.setWidth_eq]
  exact congrArg (fun ids => payments st { readWithdrawal data s with assetIds := ids }) hids

theorem lt_of_mod_eq {x n : ℕ} (hn : 0 < n) (h : x % n = x) : x < n := h ▸ Nat.mod_lt x hn

/-- Every deposit stands in some batch. -/
theorem exists_hasDeposit (t : DepositTxPublicTargets) : ∃ data, HasDeposit data 0 t :=
  ⟨pairBytes (padWithdraw t.stateRoot t.mainpoolConfigRoot) t, (pairBytes_slots rfl rfl).2⟩

/-- Every withdrawal stands in some batch. -/
theorem exists_hasWithdraw (t : WithdrawTxPublicTargets) : ∃ data, HasWithdraw data 0 t :=
  ⟨pairBytes t (padDeposit t.root t.mainpoolConfigRoot), (pairBytes_slots rfl rfl).1⟩

end Slots

theorem depositId_iff (t : DepositTxPublicTargets) :
    (∀ data s, HasDeposit data s t → DepositIdFaithful data s t) ↔ t.assetId.val < 2 ^ 32 := by
  constructor
  · intro h
    obtain ⟨data, hdata⟩ := exists_hasDeposit t
    have hread := hdata.reads.asset_id.symm.trans (h data 0 hdata).asset_id
    exact lt_of_mod_eq (by norm_num) hread
  · intro ht data s h
    exact deposit_faithful h ht

theorem withdrawId_iff (t : WithdrawTxPublicTargets) :
    (∀ data s, HasWithdraw data s t → WithdrawIdFaithful data s t) ↔
      ∀ j, (t.assetIds j).val < 2 ^ 32 := by
  constructor
  · intro h j
    obtain ⟨data, hdata⟩ := exists_hasWithdraw t
    have hread := (hdata.reads.asset_ids j).symm.trans ((h data 0 hdata).asset_ids j)
    exact lt_of_mod_eq (by norm_num) hread
  · intro ht data s h
    exact withdraw_faithful h ht

/-! ## Validation -/

/-- The slot for a deposit. -/
def slotFor (noteComm : HashOut) (dep : Deposit) : DepositTxPublicTargets where
  notFakeTx := 1
  mainpoolConfigRoot := 0
  stateRoot := 0
  accinNull := 0
  accoutComm := 0
  noteComm := noteComm
  ethAddress := limbsOf 5 dep.recipient.toNat
  amount := limbsOf 8 dep.value.toNat
  assetId := (dep.assetId.toNat : F)

theorem slotFor_matches {data : Bytes} {s : ℕ} {noteComm : HashOut} {dep : Deposit}
    (h : HasDeposit data s (slotFor noteComm dep)) (hid : dep.assetId.toNat < 2 ^ 32) :
    SlotMatches data s dep := by
  have hrecipient : lowLimbsValue (limbsOf 5 dep.recipient.toNat) = dep.recipient.toNat := by
    rw [lowLimbsValue_limbsOf]
    exact Nat.mod_eq_of_lt dep.recipient.isLt
  have hvalue : lowLimbsValue (limbsOf 8 dep.value.toNat) = dep.value.toNat := by
    rw [lowLimbsValue_limbsOf]
    exact Nat.mod_eq_of_lt dep.value.isLt
  have hasset : (dep.assetId.toNat : F).val % 2 ^ 32 = dep.assetId.toNat := by
    rw [ZMod.val_natCast_of_lt (hid.trans (by norm_num)), Nat.mod_eq_of_lt hid]
  refine ⟨?_, ?_, ?_⟩
  · exact BitVec.eq_of_toNat_eq (h.reads.recipient.trans hrecipient).symm
  · exact BitVec.eq_of_toNat_eq (h.reads.amount.trans hvalue).symm
  · exact BitVec.eq_of_toNat_eq (h.reads.asset_id.trans hasset).symm

/-- Only the first deposit slot of the batch is real. -/
theorem pairBytes_deposit {w : WithdrawTxPublicTargets} {d : DepositTxPublicTargets}
    (hroot : w.root = d.stateRoot) (hconfig : w.mainpoolConfigRoot = d.mainpoolConfigRoot) {i : ℕ}
    (hi : i < BRIDGE_TX_HALF_SIZE) (hreal : cdBool (pairBytes w d) (dSlotOff i) = true) : i = 0 := by
  cases i with
  | zero => rfl
  | succ i =>
    have hpad : (d :: List.replicate 255 (padDeposit w.root w.mainpoolConfigRoot))[i + 1]? =
        some (padDeposit w.root w.mainpoolConfigRoot) := by
      rw [List.getElem?_cons_succ, List.getElem?_replicate_of_lt (Nat.lt_of_succ_lt_succ hi)]
    have hread := ((underRoots_padded hroot hconfig).hasDeposit 0 hpad).reads.not_fake_tx
    rw [show batchBytes 0 _ _ = pairBytes w d from rfl, hreal] at hread
    simp [padDeposit] at hread

/-- A batch with one real deposit validates what the slot matches. -/
theorem Ready.prove {env : Env} {proof : Proof} {st : ContractState} {w : WithdrawTxPublicTargets}
    {d : DepositTxPublicTargets} (hroot : w.root = d.stateRoot)
    (hconfig : w.mainpoolConfigRoot = d.mainpoolConfigRoot) (hd : d.notFakeTx ≠ 0)
    (h : Ready env proof (pairBytes w d) st)
    (hpending : (st.deposits (hashToPreimageBytes32 d.noteComm)).status = .pending)
    (hmatch : SlotMatches (pairBytes w d) 0 (st.deposits (hashToPreimageBytes32 d.noteComm))) :
    ∃ st', proveBridgeTxBatch env (pairBytes w d) proof st = .ok st' ∧
      st'.deposits (hashToPreimageBytes32 d.noteComm) =
        (st.deposits (hashToPreimageBytes32 d.noteComm)).validate := by
  have hslot : HasDeposit (pairBytes w d) 0 d := (pairBytes_slots hroot hconfig).2
  have hkey : noteKey (pairBytes w d) 0 = hashToPreimageBytes32 d.noteComm := hslot.reads.note_key
  have hcheck : ∀ i, i < BRIDGE_TX_HALF_SIZE → checkBridgeSlot (pairBytes w d) st i = .ok () := by
    intro i hi
    refine checkBridgeSlot_isOk (fun hreal => ?_) fun hreal => ⟨?_, ?_⟩
    · exact h.unused _ (mem_bridgeBatch.mpr (.inl ⟨i, hi, hreal, rfl⟩))
    · exact h.unused _ (mem_bridgeBatch.mpr (.inr ⟨i, hi, hreal, rfl⟩))
    · obtain rfl := pairBytes_deposit hroot hconfig hi hreal
      rw [hkey]
      exact hpending
  have hmatches : ∀ i, i < BRIDGE_TX_HALF_SIZE → cdBool (pairBytes w d) (dSlotOff i) = true →
      SlotMatches (pairBytes w d) i (st.deposits (noteKey (pairBytes w d) i)) := by
    intro i hi hreal
    obtain rfl := pairBytes_deposit hroot hconfig hi hreal
    rw [hkey]
    exact hmatch
  obtain ⟨st', hprove⟩ := proveBridge_isOk h.paused h.pending h.verified hcheck hmatches h.room
  refine ⟨st', hprove, ?_⟩
  have hafter := ((proveBridge_deposits hprove).1 0 hslot.lt (hslot.real hd)).2.2
  rwa [hkey] at hafter

/-- A contract in which every batch is pending and every entry is `dep`. -/
def stateWith (dep : Deposit) : ContractState :=
  { sampleState with deposits := fun _ => dep, pendingBatches := fun _ _ => true }

theorem stateWith_ready (dep : Deposit) (data : Bytes) :
    Ready sampleEnv sampleProof data (stateWith dep) where
  paused := rfl
  pending := rfl
  verified := rfl
  unused := fun _ _ => rfl
  room := by
    show 0 < 2 ^ 1
    norm_num

theorem canValidate_iff (noteComm : HashOut) {dep : Deposit} (hdep : dep.status = .pending) :
    CanValidate noteComm dep ↔ dep.assetId.toNat < 2 ^ 32 := by
  constructor
  · rintro ⟨data, s, t, hslot, hreal, rfl, -, hvalidate⟩
    obtain ⟨st', hprove, -⟩ := hvalidate _ _ _ (stateWith_ready dep data) rfl
    have hne : t.notFakeTx ≠ 0 := by
      rw [hreal]
      exact one_ne_zero
    obtain ⟨-, hmatch, -⟩ := (proveBridge_deposits hprove).1 s hslot.lt (hslot.real hne)
    have hasset : dep.assetId = cdGLU64 data (dSlotOff s + D_ASSET_ID_OFF) := hmatch.2.2
    rw [hasset, hslot.reads.asset_id]
    exact Nat.mod_lt _ (by norm_num)
  · intro hid
    have hroot : (padWithdraw 0 0).root = (slotFor noteComm dep).stateRoot := rfl
    have hconfig : (padWithdraw 0 0).mainpoolConfigRoot =
        (slotFor noteComm dep).mainpoolConfigRoot := rfl
    have hslot : HasDeposit (pairBytes (padWithdraw 0 0) (slotFor noteComm dep)) 0
        (slotFor noteComm dep) := (pairBytes_slots hroot hconfig).2
    refine ⟨_, 0, _, hslot, rfl, rfl, ZMod.val_natCast_of_lt (hid.trans (by norm_num)), ?_⟩
    rintro env proof st hready rfl
    exact hready.prove hroot hconfig one_ne_zero hdep (slotFor_matches hslot hid)

/-- Ids below `2^32` are handled faithfully, and no others. -/
theorem asset_id_fidelity (d : DepositTxPublicTargets) (w : WithdrawTxPublicTargets)
    (noteComm : HashOut) (dep : Deposit) (hdep : dep.status = .pending) :
    ((∀ data s, HasDeposit data s d → DepositIdFaithful data s d) ↔ d.assetId.val < 2 ^ 32) ∧
    ((∀ data s, HasWithdraw data s w → WithdrawIdFaithful data s w) ↔
      ∀ j, (w.assetIds j).val < 2 ^ 32) ∧
    (CanValidate noteComm dep ↔ dep.assetId.toNat < 2 ^ 32) :=
  ⟨depositId_iff d, withdrawId_iff w, canValidate_iff noteComm hdep⟩

theorem asset_id_fidelity_sample :
    (∀ data s, HasDeposit data s (slotFor 0 ⟨5, 7, .pending, 0, 1⟩) →
      DepositIdFaithful data s (slotFor 0 ⟨5, 7, .pending, 0, 1⟩)) ∧
    (∀ data s, HasWithdraw data s (padWithdraw 0 0) → WithdrawIdFaithful data s (padWithdraw 0 0)) ∧
    CanValidate 0 ⟨5, 7, .pending, 0, 1⟩ := by
  obtain ⟨hdeposit, hwithdraw, hvalidate⟩ := asset_id_fidelity (slotFor 0 ⟨5, 7, .pending, 0, 1⟩)
    (padWithdraw 0 0) 0 ⟨5, 7, .pending, 0, 1⟩ rfl
  refine ⟨hdeposit.mpr ?_, hwithdraw.mpr fun _ => ?_, hvalidate.mpr ?_⟩
  · decide +kernel
  · exact (by decide +kernel : (0 : F).val < 2 ^ 32)
  · decide +kernel

/-! ## Ids above 32 bits -/

/-- Assets `1` and `2^32 + 1` are registered with the tokens `9` and `8`, and account `7`
deposits five units of asset `1`. -/
def twoAssets : List Call :=
  [⟨⟨1, 0⟩, .registerAsset 1 9⟩, ⟨⟨1, 0⟩, .registerAsset 4294967297 8⟩,
    ⟨⟨7, 0⟩, .depositAndRegister (hashToPreimageBytes32 0) 1 5 ⟨0, true, 5⟩⟩]

/-- A deposit of five units of asset `2^32 + 1`. -/
def wideDeposit : DepositTxPublicTargets := slotFor 0 ⟨5, 7, .pending, 0, 4294967297⟩

/-- A withdrawal of seven times five units of asset `2^32 + 1`. -/
def wideWithdraw : WithdrawTxPublicTargets where
  notFakeTx := 1
  root := 0
  mainpoolConfigRoot := 0
  accinNull := 1
  accoutComm := 0
  assetIds := fun _ => 4294967297
  withdrawalAmts := fun _ => limbsOf 8 5
  wAccAddr := limbsOf 5 7

def wideBatch : Bytes := pairBytes wideWithdraw wideDeposit

def wideState : ContractState := (runContract sampleEnv sampleState twoAssets).1

theorem wide_hasDeposit : HasDeposit wideBatch 0 wideDeposit := (pairBytes_slots rfl rfl).2

theorem wide_hasWithdraw : HasWithdraw wideBatch 0 wideWithdraw := (pairBytes_slots rfl rfl).1

/-- The contract takes the slot for one of asset `1`. -/
theorem wide_matches : SlotMatches wideBatch 0 ⟨5, 7, .pending, 0, 1⟩ := by
  have hrecipient : lowLimbsValue wideDeposit.ethAddress = 7 := by decide +kernel
  have hvalue : lowLimbsValue wideDeposit.amount = 5 := by decide +kernel
  have hasset : wideDeposit.assetId.val % 2 ^ 32 = 1 := by decide +kernel
  refine ⟨?_, ?_, ?_⟩
  · exact BitVec.eq_of_toNat_eq (wide_hasDeposit.reads.recipient.trans hrecipient).symm
  · exact BitVec.eq_of_toNat_eq (wide_hasDeposit.reads.amount.trans hvalue).symm
  · exact BitVec.eq_of_toNat_eq (wide_hasDeposit.reads.asset_id.trans hasset).symm

theorem wide_withdrawal : readWithdrawal wideBatch 0 = ⟨7, fun _ => 1, fun _ => 5⟩ := by
  have hreads := wide_hasWithdraw.reads
  have hrecipient : lowLimbsValue wideWithdraw.wAccAddr = 7 := by decide +kernel
  have hvalue : ∀ j, lowLimbsValue (wideWithdraw.withdrawalAmts j) = 5 := by decide +kernel
  have hasset : ∀ j, (wideWithdraw.assetIds j).val % 2 ^ 32 = 1 := by decide +kernel
  have hto : (readWithdrawal wideBatch 0).recipient = 7 :=
    BitVec.eq_of_toNat_eq (hreads.recipient.trans hrecipient)
  have hids : (readWithdrawal wideBatch 0).assetIds = fun _ => 1 :=
    funext fun j => BitVec.eq_of_toNat_eq ((hreads.asset_ids j).trans (hasset j))
  have hamounts : (readWithdrawal wideBatch 0).amounts = fun _ => 5 :=
    funext fun j => BitVec.eq_of_toNat_eq ((hreads.amounts j).trans (hvalue j))
  calc readWithdrawal wideBatch 0 = ⟨(readWithdrawal wideBatch 0).recipient,
        (readWithdrawal wideBatch 0).assetIds, (readWithdrawal wideBatch 0).amounts⟩ := rfl
    _ = ⟨7, fun _ => 1, fun _ => 5⟩ := by rw [hto, hids, hamounts]

/-- The state after the batch is submitted. -/
def wideSubmitted : ContractState :=
  { wideState with
    pendingBatches := update wideState.pendingBatches .bridge
      (update (wideState.pendingBatches .bridge) (piCommitment sampleEnv wideBatch) true) }

theorem wide_submit :
    step sampleEnv ⟨⟨1, 0⟩, .submitBridgeTxBatch wideBatch⟩ wideState = .ok wideSubmitted := by
  obtain ⟨hstate, hconfig⟩ := wide_hasDeposit.header
  have hzero : packLE wideDeposit.stateRoot = 0 ∧ packLE wideDeposit.mainpoolConfigRoot = 0 := by
    decide +kernel
  have hconfirmed : wideState.imt.confirmedRoots 0 = true := by decide +kernel
  have hmain : wideState.mainPoolConfigRoot = 0 := by decide +kernel
  show submitBatch sampleEnv ⟨1, 0⟩ .bridge wideBatch wideState = _
  unfold submitBatch
  rw [hstate, hconfig, hzero.1, hzero.2, hconfirmed, hmain]
  rfl

theorem wide_ready : Ready sampleEnv sampleProof wideBatch wideSubmitted where
  paused := by decide +kernel
  pending := by
    show update wideState.pendingBatches .bridge (update (wideState.pendingBatches .bridge)
      (piCommitment sampleEnv wideBatch) true) .bridge (piCommitment sampleEnv wideBatch) = true
    rw [update_self, update_self]
  verified := rfl
  unused := fun _ _ => rfl
  room := by decide +kernel

/-- A slot of asset `2^32 + 1` validates the deposit of asset `1` and pays out its token, and
a deposit of asset `2^32 + 1`, which a circuit does expose, is never validated. -/
theorem asset_id_truncated :
    Deployed sampleEnv sampleState ∧
    wideState.assetMap 1 = 9 ∧ wideState.assetMap 4294967297 = 8 ∧
    (HasDeposit wideBatch 0 wideDeposit ∧ HasWithdraw wideBatch 0 wideWithdraw ∧
      wideDeposit.assetId.val = 2 ^ 32 + 1 ∧ ∀ j, (wideWithdraw.assetIds j).val = 2 ^ 32 + 1) ∧
    ((runContract sampleEnv sampleState (twoAssets ++
        [⟨⟨1, 0⟩, .submitBridgeTxBatch wideBatch⟩] ++
        [⟨⟨2, 0⟩, .proveBridgeTxBatch wideBatch sampleProof⟩])).1.deposits
      (hashToPreimageBytes32 0) = ⟨5, 7, .validated, 0, 1⟩) ∧
    payments wideState (readWithdrawal wideBatch 0) = List.replicate 7 (9, 7, 5) ∧
    ¬ CanValidate 0 ⟨5, 7, .pending, 0, 4294967297⟩ ∧
    ∀ perm : State → State, ∃ t : DepositTxTargets, t.Satisfied perm ∧ t.notFakeTx = 1 ∧
      (t.publicTargets perm).assetId.val = 2 ^ 32 + 1 := by
  have hdep : wideSubmitted.deposits (hashToPreimageBytes32 0) = ⟨5, 7, .pending, 0, 1⟩ := by
    decide +kernel
  refine ⟨sampleState_deployed, by decide +kernel, by decide +kernel,
    ⟨wide_hasDeposit, wide_hasWithdraw, by decide +kernel, by decide +kernel⟩, ?_, ?_, ?_, ?_⟩
  · obtain ⟨st', hprove, hafter⟩ := wide_ready.prove rfl rfl one_ne_zero
      (by rw [show wideDeposit.noteComm = 0 from rfl, hdep])
      (by rw [show wideDeposit.noteComm = 0 from rfl, hdep]; exact wide_matches)
    have hsubmit := runContract_concat wide_submit
    have hprove' : step sampleEnv ⟨⟨2, 0⟩, .proveBridgeTxBatch wideBatch sampleProof⟩
        (runContract sampleEnv sampleState
          (twoAssets ++ [⟨⟨1, 0⟩, .submitBridgeTxBatch wideBatch⟩])).1 = .ok st' := by
      rw [hsubmit]
      exact hprove
    rw [runContract_concat hprove']
    exact hafter.trans (congrArg Deposit.validate hdep)
  · rw [wide_withdrawal]
    decide +kernel
  · rw [canValidate_iff 0 rfl]
    decide +kernel
  · intro perm
    refine ⟨BridgeRoots.depositOf perm (.real perm) ⟨4294967297, BridgeRoots.amount,
      BridgeRoots.sum, 0⟩, BridgeRoots.real_valid.depositOf_satisfied BridgeRoots.sum_satisfied,
      rfl, ?_⟩
    show (4294967297 : F).val = 2 ^ 32 + 1
    decide +kernel

end Doxa.Contract
