import Doxa.Contract.Decoding
import Doxa.Server.Slots

/-!
# What the contract reads of a batch

Every read of the contract in the preimage of a batch is a read of named public inputs of a
slot. Numbers are read limb by limb and only 32 bits of each, so amounts, addresses and
asset ids are read exactly when their elements are below `2^32`.
-/

namespace Doxa.Contract

open Lib Circuit Server Trees

variable {data : Bytes}

theorem written_content {data : Bytes} {fields : List F}
    (h : data.content = fields.flatMap fieldBytes) : Written data.byte fields := by
  have hlength : data.length = fields.length * 8 := by
    have hlen := congrArg List.length h
    rwa [Bytes.content, List.length_map, List.length_range,
      length_flatMap_record fun f _ => fieldBytes_length f] at hlen
  intro n hn
  have hbyte : data.content.getD n 0 = data.byte n := by
    rw [Bytes.content, List.getD_eq_getElem?_getD, List.getElem?_map,
      List.getElem?_range (by omega), Option.map_some, Option.getD_some]
  rw [← hbyte, h]

/-- The header as the contract reads it. -/
structure ReadsHeader (data : Bytes) (root : HashOut) (pis : List F) : Prop where
  batch_root : batchRoot data = packLE root
  state_root : stateRoot data = packLE (actRoot pis)
  config_root : glHashToU256 (cdB32 data 64) = packLE (mainpoolConfigRoot pis)

theorem readsHeader {root : HashOut} {pis : List F} (h : HeaderAt data.byte root pis) :
    ReadsHeader data root pis where
  batch_root := glHashToU256_digest h.root
  state_root := glHashToU256_digest h.act_root
  config_root := glHashToU256_digest h.config_root

/-- Slot `s` of a private-transaction batch as the contract reads it. -/
structure ReadsTx (data : Bytes) (s : ℕ) (t : TxCircuitPublicTargets) : Prop where
  not_fake_tx : cdBool data (txSlotOff s) = decide (t.notFakeTx ≠ 0)
  nullifiers : (txNullifiers data s).map glHashToU256 =
    (t.accinNull :: List.ofFn t.inotesNull).map packLE

/-- The withdrawal in slot `s` as the contract reads it. -/
structure ReadsWithdraw (data : Bytes) (s : ℕ) (t : WithdrawTxPublicTargets) : Prop where
  not_fake_tx : cdBool data (wSlotOff s) = decide (t.notFakeTx ≠ 0)
  nullifier : glHashToU256 (wNullifier data s) = packLE t.accinNull
  asset_ids : ∀ j, ((readWithdrawal data s).assetIds j).toNat = (t.assetIds j).val % 2 ^ 32
  amounts : ∀ j, ((readWithdrawal data s).amounts j).toNat = lowLimbsValue (t.withdrawalAmts j)
  recipient : (readWithdrawal data s).recipient.toNat = lowLimbsValue t.wAccAddr

/-- The deposit in slot `s` as the contract reads it. -/
structure ReadsDeposit (data : Bytes) (s : ℕ) (t : DepositTxPublicTargets) : Prop where
  not_fake_tx : cdBool data (dSlotOff s) = decide (t.notFakeTx ≠ 0)
  nullifier : glHashToU256 (dNullifier data s) = packLE t.accinNull
  note_key : noteKey data s = hashToPreimageBytes32 t.noteComm
  recipient : (cdGLAddress data (dSlotOff s + D_ETH_ADDR_OFF)).toNat = lowLimbsValue t.ethAddress
  amount : (cdGLU256 data (dSlotOff s + D_AMT_OFF)).toNat = lowLimbsValue t.amount
  asset_id : (cdGLU64 data (dSlotOff s + D_ASSET_ID_OFF)).toNat = t.assetId.val % 2 ^ 32

theorem readsTx {s : ℕ} {pis : List F} (h : SlotAt data.byte (txSlotOff s) pis)
    (hlength : pis.length = TxCircuitPublicTargets.PI_LEN) :
    ReadsTx data s (TxCircuitPublicTargets.fromPis pis) where
  not_fake_tx := cdBool_fieldAt (h.field (i := 8) le_rfl (by rw [hlength]; decide))
  nullifiers := by
    have hnote : ∀ j : Fin Circuit.NOTE_BATCH,
        glHashToU256 (cdB32 data (txSlotOff s + TX_NOTE_IN_OFF + j.val * 32)) =
          packLE (fieldsOf pis (17 + j.val * 4) 4) := by
      intro j
      have hj : j.val < 7 := j.isLt
      have hlen : pis.length = 73 := hlength
      have hat := h.fields (i := 17 + j.val * 4) (n := 4) (by omega) (by omega)
      have hoff : TX_NOTE_IN_OFF = 72 := rfl
      refine glHashToU256_digest ?_
      rw [show txSlotOff s + TX_NOTE_IN_OFF + j.val * 32 =
        txSlotOff s + 8 * (17 + j.val * 4 - 8) by omega]
      exact hat
    have haccount := glHashToU256_digest (h.fields (i := 9) (n := 4) (by decide)
      (by rw [hlength]; decide))
    rw [txNullifiers, List.map_cons, List.map_cons, List.map_map]
    refine congrArg₂ List.cons haccount ?_
    rw [List.map_ofFn]
    apply List.ext_getElem
    · rw [List.length_map, List.length_range, List.length_ofFn]
      rfl
    · intro j hj _
      rw [List.length_map, List.length_range] at hj
      rw [List.getElem_map, List.getElem_range, List.getElem_ofFn]
      exact hnote ⟨j, hj⟩

theorem readsWithdraw {s : ℕ} {pis : List F} (h : SlotAt data.byte (wSlotOff s) pis)
    (hlength : pis.length = WithdrawTxPublicTargets.PI_LEN) :
    ReadsWithdraw data s (WithdrawTxPublicTargets.fromPis pis) := by
  have hlen : pis.length = 85 := hlength
  refine ⟨?_, ?_, ?_, ?_, ?_⟩
  · exact cdBool_fieldAt (h.field (i := 8) le_rfl (by omega))
  · exact glHashToU256_digest (h.fields (i := 9) (n := 4) (by decide) (by omega))
  · intro j
    have hj : j.val < 7 := j.isLt
    have hat := h.fields (i := 17) (n := 7) (by decide) (by omega) j
    have hoff : W_ASSET_ID_OFF = 72 := rfl
    refine cdGLU64_fieldAt ?_
    rw [show wSlotOff s + W_ASSET_ID_OFF + j.val * 8 =
      wSlotOff s + 8 * (17 - 8) + 8 * j.val by omega]
    exact hat
  · intro j
    have hj : j.val < 7 := j.isLt
    have hat := h.fields (i := 17 + (7 + j.val * 8)) (n := 8) (by omega) (by omega)
    have hoff : W_AMT_OFF = 128 := rfl
    refine cdGLU256_fieldsAt ?_
    rw [show wSlotOff s + W_AMT_OFF + j.val * 64 =
      wSlotOff s + 8 * (17 + (7 + j.val * 8) - 8) by omega]
    exact hat
  · exact cdGLAddress_fieldsAt (h.fields (i := 80) (n := 5) (by decide) (by omega))

theorem readsDeposit {s : ℕ} {pis : List F} (h : SlotAt data.byte (dSlotOff s) pis)
    (hlength : pis.length = DepositTxPublicTargets.PI_LEN) :
    ReadsDeposit data s (DepositTxPublicTargets.fromPis pis) := by
  have hlen : pis.length = 35 := hlength
  refine ⟨?_, ?_, ?_, ?_, ?_, ?_⟩
  · exact cdBool_fieldAt (h.field (i := 8) le_rfl (by omega))
  · exact glHashToU256_digest (h.fields (i := 9) (n := 4) (by decide) (by omega))
  · exact cdB32_digest (h.fields (i := 17) (n := 4) (by decide) (by omega))
  · exact cdGLAddress_fieldsAt (h.fields (i := 21) (n := 5) (by decide) (by omega))
  · exact cdGLU256_fieldsAt (h.fields (i := 26) (n := 8) (by decide) (by omega))
  · exact cdGLU64_fieldAt (h.field (i := 34) (by decide) (by omega))

/-! ## Slots of a batch -/

/-- The preimage of a bridge batch with the withdrawal `t` in slot `s`. -/
def HasWithdraw (data : Bytes) (s : ℕ) (t : WithdrawTxPublicTargets) : Prop :=
  ∃ root ws ds, IsBridgeBatch ws ds ∧ s < HALF ∧ slotPis ws s = t.register ∧
    data.content = preimageBytes root (ws ++ ds)

/-- The preimage of a bridge batch with the deposit `t` in slot `s`. -/
def HasDeposit (data : Bytes) (s : ℕ) (t : DepositTxPublicTargets) : Prop :=
  ∃ root ws ds, IsBridgeBatch ws ds ∧ s < HALF ∧ slotPis ds s = t.register ∧
    data.content = preimageBytes root (ws ++ ds)

theorem HasWithdraw.reads {s : ℕ} {t : WithdrawTxPublicTargets} (h : HasWithdraw data s t) :
    ReadsWithdraw data s t := by
  obtain ⟨root, ws, ds, hbatch, hs, hslot, hdata⟩ := h
  have hat := hbatch.withdrawAt (written_content hdata) hs
  have hreads := readsWithdraw hat (hbatch.ws_pis _ (hbatch.w_mem hs))
  rwa [hslot, WithdrawTxPublicTargets.fromPis_register] at hreads

theorem HasDeposit.reads {s : ℕ} {t : DepositTxPublicTargets} (h : HasDeposit data s t) :
    ReadsDeposit data s t := by
  obtain ⟨root, ws, ds, hbatch, hs, hslot, hdata⟩ := h
  have hat := hbatch.depositAt (written_content hdata) hs
  have hreads := readsDeposit hat (hbatch.ds_pis _ (hbatch.d_mem hs))
  rwa [hslot, DepositTxPublicTargets.fromPis_register] at hreads

/-- The roots of the header are those of every slot. -/
theorem HasDeposit.header {s : ℕ} {t : DepositTxPublicTargets} (h : HasDeposit data s t) :
    stateRoot data = packLE t.stateRoot ∧
      glHashToU256 (cdB32 data 64) = packLE t.mainpoolConfigRoot := by
  obtain ⟨root, ws, ds, hbatch, hs, hslot, hdata⟩ := h
  have hmem := List.mem_append_right ws (hbatch.d_mem hs)
  have hheader := readsHeader (hbatch.headerAt (written_content hdata) hmem)
  have hread := DepositTxPublicTargets.fromPis_register t
  have hact : actRoot t.register = t.stateRoot := congrArg DepositTxPublicTargets.stateRoot hread
  have hconfig : mainpoolConfigRoot t.register = t.mainpoolConfigRoot :=
    congrArg DepositTxPublicTargets.mainpoolConfigRoot hread
  rw [hslot] at hheader
  exact ⟨hact ▸ hheader.state_root, hconfig ▸ hheader.config_root⟩

/-- A `bytes calldata` argument with the given bytes. -/
def Bytes.ofList (bytes : List (BitVec 8)) : Bytes := ⟨bytes.length, fun i => bytes.getD i 0⟩

theorem Bytes.content_ofList (bytes : List (BitVec 8)) : (Bytes.ofList bytes).content = bytes := by
  apply List.ext_getElem
  · rw [Bytes.content, List.length_map, List.length_range]
    rfl
  · intro i hi hi'
    simp only [Bytes.content, List.getElem_map, List.getElem_range]
    exact List.getD_eq_getElem _ _ hi'

section Registers

variable {ws : List WithdrawTxPublicTargets} {ds : List DepositTxPublicTargets}

/-- Withdrawals and deposits that may form a batch. -/
structure UnderRoots (ws : List WithdrawTxPublicTargets) (ds : List DepositTxPublicTargets)
    (root config : HashOut) : Prop where
  ws_length : ws.length = HALF
  ds_length : ds.length = HALF
  ws_roots : ∀ w ∈ ws, w.root = root ∧ w.mainpoolConfigRoot = config
  ds_roots : ∀ d ∈ ds, d.stateRoot = root ∧ d.mainpoolConfigRoot = config

/-- The preimage of the batch of `ws` and `ds`. -/
def batchBytes (batchRoot : HashOut) (ws : List WithdrawTxPublicTargets)
    (ds : List DepositTxPublicTargets) : Bytes :=
  .ofList (preimageBytes batchRoot (ws.map WithdrawTxPublicTargets.register ++
    ds.map DepositTxPublicTargets.register))

variable {root config : HashOut}

theorem UnderRoots.isBridgeBatch (h : UnderRoots ws ds root config) :
    IsBridgeBatch (ws.map WithdrawTxPublicTargets.register)
      (ds.map DepositTxPublicTargets.register) where
  ws_length := (List.length_map _).trans h.ws_length
  ds_length := (List.length_map _).trans h.ds_length
  ws_pis := by
    intro p hp
    obtain ⟨w, -, rfl⟩ := List.mem_map.mp hp
    exact w.register_length
  ds_pis := by
    intro p hp
    obtain ⟨d, -, rfl⟩ := List.mem_map.mp hp
    exact d.register_length
  uniform := by
    have hall : ∀ p ∈ ws.map WithdrawTxPublicTargets.register ++
        ds.map DepositTxPublicTargets.register, commonRoots p = (root, config) := by
      intro p hp
      rcases List.mem_append.mp hp with hp | hp
      · obtain ⟨w, hw, rfl⟩ := List.mem_map.mp hp
        have hread := WithdrawTxPublicTargets.fromPis_register w
        obtain ⟨rfl, rfl⟩ := h.ws_roots w hw
        exact Prod.ext (congrArg WithdrawTxPublicTargets.root hread)
          (congrArg WithdrawTxPublicTargets.mainpoolConfigRoot hread)
      · obtain ⟨d, hd, rfl⟩ := List.mem_map.mp hp
        have hread := DepositTxPublicTargets.fromPis_register d
        obtain ⟨rfl, rfl⟩ := h.ds_roots d hd
        exact Prod.ext (congrArg DepositTxPublicTargets.stateRoot hread)
          (congrArg DepositTxPublicTargets.mainpoolConfigRoot hread)
    exact fun p hp q hq => (hall p hp).trans (hall q hq).symm

theorem slotPis_map {α : Type} {f : α → List F} {xs : List α} {s : ℕ} {x : α}
    (hs : xs[s]? = some x) : slotPis (xs.map f) s = f x := by
  rw [slotPis, List.getD_eq_getElem?_getD, List.getElem?_map, hs]
  rfl

theorem UnderRoots.hasWithdraw (h : UnderRoots ws ds root config) (batchRoot : HashOut) {s : ℕ}
    {w : WithdrawTxPublicTargets} (hs : ws[s]? = some w) :
    HasWithdraw (batchBytes batchRoot ws ds) s w := by
  have hlt := (List.getElem?_eq_some_iff.mp hs).1
  exact ⟨batchRoot, _, _, h.isBridgeBatch, h.ws_length ▸ hlt, slotPis_map hs,
    Bytes.content_ofList _⟩

theorem UnderRoots.hasDeposit (h : UnderRoots ws ds root config) (batchRoot : HashOut) {s : ℕ}
    {d : DepositTxPublicTargets} (hs : ds[s]? = some d) :
    HasDeposit (batchBytes batchRoot ws ds) s d := by
  have hlt := (List.getElem?_eq_some_iff.mp hs).1
  exact ⟨batchRoot, _, _, h.isBridgeBatch, h.ds_length ▸ hlt, slotPis_map hs,
    Bytes.content_ofList _⟩

/-- A padding withdrawal under the given roots. -/
def padWithdraw (root config : HashOut) : WithdrawTxPublicTargets := ⟨0, root, config, 0, 0, 0, 0, 0⟩

/-- A padding deposit under the given roots. -/
def padDeposit (root config : HashOut) : DepositTxPublicTargets :=
  ⟨0, config, root, 0, 0, 0, 0, 0, 0⟩

/-- One withdrawal and one deposit, with padding behind them. -/
theorem underRoots_padded {w : WithdrawTxPublicTargets} {d : DepositTxPublicTargets}
    (hroot : w.root = d.stateRoot) (hconfig : w.mainpoolConfigRoot = d.mainpoolConfigRoot) :
    UnderRoots (w :: List.replicate 255 (padWithdraw w.root w.mainpoolConfigRoot))
      (d :: List.replicate 255 (padDeposit w.root w.mainpoolConfigRoot)) w.root
      w.mainpoolConfigRoot where
  ws_length := by
    rw [List.length_cons, List.length_replicate]
    rfl
  ds_length := by
    rw [List.length_cons, List.length_replicate]
    rfl
  ws_roots := by
    intro x hx
    rcases List.mem_cons.mp hx with rfl | hx
    · exact ⟨rfl, rfl⟩
    · rw [List.eq_of_mem_replicate hx]
      exact ⟨rfl, rfl⟩
  ds_roots := by
    intro x hx
    rcases List.mem_cons.mp hx with rfl | hx
    · exact ⟨hroot.symm, hconfig.symm⟩
    · rw [List.eq_of_mem_replicate hx]
      exact ⟨rfl, rfl⟩

/-- The batch with one withdrawal and one deposit. -/
def pairBytes (w : WithdrawTxPublicTargets) (d : DepositTxPublicTargets) : Bytes :=
  batchBytes 0 (w :: List.replicate 255 (padWithdraw w.root w.mainpoolConfigRoot))
    (d :: List.replicate 255 (padDeposit w.root w.mainpoolConfigRoot))

theorem pairBytes_slots {w : WithdrawTxPublicTargets} {d : DepositTxPublicTargets}
    (hroot : w.root = d.stateRoot) (hconfig : w.mainpoolConfigRoot = d.mainpoolConfigRoot) :
    HasWithdraw (pairBytes w d) 0 w ∧ HasDeposit (pairBytes w d) 0 d := by
  have hbatch := underRoots_padded hroot hconfig
  exact ⟨hbatch.hasWithdraw 0 rfl, hbatch.hasDeposit 0 rfl⟩

end Registers

/-! ## Exact reads -/

/-- The limbs and asset ids of a withdrawal are 32-bit numbers. -/
structure U32Withdraw (t : WithdrawTxPublicTargets) : Prop where
  asset_ids : ∀ j, (t.assetIds j).val < 2 ^ 32
  amounts : ∀ j k, (t.withdrawalAmts j k).val < 2 ^ 32
  address : ∀ k, (t.wAccAddr k).val < 2 ^ 32

/-- The limbs and the asset id of a deposit are 32-bit numbers. -/
structure U32Deposit (t : DepositTxPublicTargets) : Prop where
  asset_id : t.assetId.val < 2 ^ 32
  amount : ∀ k, (t.amount k).val < 2 ^ 32
  address : ∀ k, (t.ethAddress k).val < 2 ^ 32

/-- The contract reads the very numbers of the withdrawal in slot `s`. -/
structure ExactWithdraw (data : Bytes) (s : ℕ) (t : WithdrawTxPublicTargets) : Prop extends
    ReadsWithdraw data s t where
  asset_ids_eq : ∀ j, ((readWithdrawal data s).assetIds j).toNat = (t.assetIds j).val
  amounts_eq : ∀ j, ((readWithdrawal data s).amounts j).toNat = limbsValue (t.withdrawalAmts j)
  recipient_eq : (readWithdrawal data s).recipient.toNat = limbsValue t.wAccAddr

/-- The contract reads the very numbers of the deposit in slot `s`. -/
structure ExactDeposit (data : Bytes) (s : ℕ) (t : DepositTxPublicTargets) : Prop extends
    ReadsDeposit data s t where
  recipient_eq : (cdGLAddress data (dSlotOff s + D_ETH_ADDR_OFF)).toNat = limbsValue t.ethAddress
  amount_eq : (cdGLU256 data (dSlotOff s + D_AMT_OFF)).toNat = limbsValue t.amount
  asset_id_eq : (cdGLU64 data (dSlotOff s + D_ASSET_ID_OFF)).toNat = t.assetId.val

theorem ReadsWithdraw.exact {s : ℕ} {t : WithdrawTxPublicTargets} (h : ReadsWithdraw data s t)
    (hu : U32Withdraw t) : ExactWithdraw data s t where
  toReadsWithdraw := h
  asset_ids_eq := fun j => (h.asset_ids j).trans (Nat.mod_eq_of_lt (hu.asset_ids j))
  amounts_eq := fun j => (h.amounts j).trans ((lowLimbsValue_eq_iff _).mpr (hu.amounts j))
  recipient_eq := h.recipient.trans ((lowLimbsValue_eq_iff _).mpr hu.address)

theorem ReadsDeposit.exact {s : ℕ} {t : DepositTxPublicTargets} (h : ReadsDeposit data s t)
    (hu : U32Deposit t) : ExactDeposit data s t where
  toReadsDeposit := h
  recipient_eq := h.recipient.trans ((lowLimbsValue_eq_iff _).mpr hu.address)
  amount_eq := h.amount.trans ((lowLimbsValue_eq_iff _).mpr hu.amount)
  asset_id_eq := h.asset_id.trans (Nat.mod_eq_of_lt hu.asset_id)

end Doxa.Contract
