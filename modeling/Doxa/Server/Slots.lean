import Doxa.Server.Batches

/-!
# The slots of a preimage

Where the preimage of a batch has the elements of its header and of its slots. A slot is at
a byte offset when its unique public inputs stand there one after the other. The slots of a
section have one width, so slot `s` is found by multiplication.
-/

namespace Doxa.Server

open Lib Circuit

/-! ## Elements of the preimage -/

/-- The preimage before the slots. -/
def headerFields (root : HashOut) (pis : List F) : List F := List.ofFn root ++ batchCommonPis pis

theorem headerFields_length (root : HashOut) {pis : List F} (h : 8 ≤ pis.length) :
    (headerFields root pis).length = 12 := by
  rw [headerFields, List.length_append, List.length_ofFn, batchCommonPis, slice_length (by omega)]

/-- The public inputs of slot `s`. -/
def slotPis (proofs : List (List F)) (s : ℕ) : List F := proofs.getD s []

theorem preimageFields_eq (root : HashOut) (proofs : List (List F)) :
    preimageFields root proofs =
      headerFields root (slotPis proofs 0) ++ proofs.flatMap batchUniquePis := rfl

/-- The unique public inputs `pis` stand at `off`. -/
def SlotAt (byte : ℕ → BitVec 8) (off : ℕ) (pis : List F) : Prop :=
  ∀ j, 8 + j < pis.length → FieldAt byte (off + 8 * j) (pis.getD (8 + j) 0)

/-- The header of a batch with the given root and common public inputs. -/
structure HeaderAt (byte : ℕ → BitVec 8) (root : HashOut) (pis : List F) : Prop where
  root : FieldsAt byte 0 root
  act_root : FieldsAt byte 32 (actRoot pis)
  config_root : FieldsAt byte 64 (mainpoolConfigRoot pis)

/-- The bytes are those of the written elements. -/
def Written (byte : ℕ → BitVec 8) (fields : List F) : Prop :=
  ∀ n < fields.length * 8, byte n = (fields.flatMap fieldBytes).getD n 0

section At

variable {byte : ℕ → BitVec 8} {off : ℕ} {pis : List F}

theorem SlotAt.fields (h : SlotAt byte off pis) {i n : ℕ} (hi : 8 ≤ i) (hn : i + n ≤ pis.length) :
    FieldsAt byte (off + 8 * (i - 8)) (fieldsOf pis i n) := by
  intro k
  have hk := k.isLt
  have hfield := h (i - 8 + k.val) (by omega)
  rw [show 8 + (i - 8 + k.val) = i + k.val by omega, Nat.mul_add, ← Nat.add_assoc] at hfield
  exact hfield

theorem SlotAt.field (h : SlotAt byte off pis) {i : ℕ} (hi : 8 ≤ i) (hn : i < pis.length) :
    FieldAt byte (off + 8 * (i - 8)) (pis.getD i 0) := by
  have hfield := h (i - 8) (by omega)
  rwa [show 8 + (i - 8) = i by omega] at hfield

/-- Elements found at consecutive positions of the written list. -/
theorem Written.fields {fields : List F} (h : Written byte fields) (base : ℕ) {n : ℕ} {a : Fin n → F}
    (ha : ∀ k : Fin n, fields[base + k.val]? = some (a k)) : FieldsAt byte (base * 8) a := by
  intro k
  have hfield := fieldAt_flatMap h (ha k)
  rwa [Nat.add_mul, Nat.mul_comm k.val] at hfield

theorem Written.slot {fields : List F} (h : Written byte fields) (base : ℕ)
    (hslot : ∀ j, 8 + j < pis.length → fields[base + j]? = some (pis.getD (8 + j) 0)) :
    SlotAt byte (base * 8) pis := by
  intro j hj
  have hfield := fieldAt_flatMap h (hslot j hj)
  rwa [Nat.add_mul, Nat.mul_comm j] at hfield

theorem getElem?_ofFn_append {n : ℕ} (a : Fin n → F) (ys : List F) (k : Fin n) :
    (List.ofFn a ++ ys)[k.val]? = some (a k) := by
  rw [List.getElem?_append_left (by rw [List.length_ofFn]; exact k.isLt), List.getElem?_ofFn,
    dif_pos k.isLt]

theorem Written.header {root : HashOut} {rest : List F} (hlength : 8 ≤ pis.length)
    (h : Written byte (headerFields root pis ++ rest)) : HeaderAt byte root pis := by
  have hpis : ∀ i < 8, (headerFields root pis ++ rest)[4 + i]? = some (pis.getD i 0) := by
    intro i hi
    have hlen := headerFields_length root hlength
    rw [List.getElem?_append_left (by omega), headerFields, List.getElem?_append_right
      (by rw [List.length_ofFn]; omega), List.length_ofFn, Nat.add_sub_cancel_left, batchCommonPis,
      slice, List.getElem?_take_of_lt hi, List.getElem?_drop, Nat.zero_add,
      List.getElem?_eq_getElem (by omega), List.getD_eq_getElem _ _ (by omega)]
  refine ⟨?_, ?_, ?_⟩
  · have hroot := h.fields 0 (a := root) fun k => by
      rw [Nat.zero_add, headerFields, List.append_assoc]
      exact getElem?_ofFn_append root _ k
    exact hroot
  · exact h.fields 4 (a := actRoot pis) fun k => by
      have hk := k.isLt
      rw [hpis k.val (by omega), actRoot, fieldsOf, Nat.zero_add]
  · exact h.fields 8 (a := mainpoolConfigRoot pis) fun k => by
      have hk := k.isLt
      rw [show 8 + k.val = 4 + (4 + k.val) by omega, hpis (4 + k.val) (by omega)]
      rfl

end At

/-! ## Slots of one width -/

section Records

variable {byte : ℕ → BitVec 8} {proofs : List (List F)} {pre post : List F} {w s : ℕ}

/-- Slot `s` of a section of slots with `w` unique public inputs each. -/
theorem Written.slotOf (hwidth : ∀ p ∈ proofs, (batchUniquePis p).length = w)
    (h : Written byte (pre ++ proofs.flatMap batchUniquePis ++ post)) {pis : List F}
    (hs : proofs[s]? = some pis) : SlotAt byte ((pre.length + s * w) * 8) pis := by
  have hlt := (List.getElem?_eq_some_iff.mp hs).1
  have hw : (batchUniquePis pis).length = w := hwidth pis (List.mem_of_getElem? hs)
  apply h.slot
  intro j hj
  have hjw : j < w := by
    rw [← hw, batchUniquePis, List.length_drop]
    omega
  have hrecord : (proofs.flatMap batchUniquePis)[s * w + j]? = _ :=
    getElem?_flatMap_record hwidth hjw
  have hget : (batchUniquePis pis)[j]? = some (pis.getD (8 + j) 0) := by
    rw [batchUniquePis, List.getElem?_drop, List.getElem?_eq_getElem hj,
      List.getD_eq_getElem _ _ hj]
  rw [hs, Option.bind_some, hget] at hrecord
  have hbound := (List.getElem?_eq_some_iff.mp hrecord).1
  rw [Nat.add_assoc, List.append_assoc, List.getElem?_append_right (Nat.le_add_right _ _),
    Nat.add_sub_cancel_left, List.getElem?_append_left hbound, hrecord]

end Records

theorem getElem?_slotPis {proofs : List (List F)} {s : ℕ} (hs : s < proofs.length) :
    proofs[s]? = some (slotPis proofs s) := by
  rw [List.getElem?_eq_getElem hs, slotPis, List.getD_eq_getElem _ _ hs]

theorem slotPis_mem {proofs : List (List F)} {s : ℕ} (hs : s < proofs.length) :
    slotPis proofs s ∈ proofs := List.mem_of_getElem? (getElem?_slotPis hs)

theorem flatMap_fieldBytes_length (fields : List F) :
    (fields.flatMap fieldBytes).length = fields.length * 8 :=
  length_flatMap_record fun f _ => fieldBytes_length f

/-- The bytes of the preimage. -/
def preimageBytes (root : HashOut) (proofs : List (List F)) : List (BitVec 8) :=
  (preimageFields root proofs).flatMap fieldBytes

/-! ## Private transactions -/

section Tx

variable {root : HashOut} {proofs : List (List F)} {byte : ℕ → BitVec 8}

/-- The proofs of a full batch of private transactions. -/
structure IsTxBatch (proofs : List (List F)) : Prop where
  length_eq : proofs.length = 64
  pis_length : ∀ p ∈ proofs, p.length = TxCircuitPublicTargets.PI_LEN
  uniform : ∀ p ∈ proofs, ∀ q ∈ proofs, commonRoots p = commonRoots q

theorem IsTxBatch.width (h : IsTxBatch proofs) : ∀ p ∈ proofs, (batchUniquePis p).length = 65 := by
  intro p hp
  rw [batchUniquePis, List.length_drop, h.pis_length p hp]
  rfl

theorem IsTxBatch.slot_mem (h : IsTxBatch proofs) {s : ℕ} (hs : s < 64) :
    slotPis proofs s ∈ proofs := slotPis_mem (h.length_eq.symm ▸ hs)

theorem IsTxBatch.first_length (h : IsTxBatch proofs) : 8 ≤ (slotPis proofs 0).length := by
  rw [h.pis_length _ (h.slot_mem (by decide))]
  decide

theorem IsTxBatch.fields_length (h : IsTxBatch proofs) :
    (preimageFields root proofs).length = 12 + 64 * 65 := by
  rw [preimageFields_eq, List.length_append, headerFields_length root h.first_length,
    length_flatMap_record h.width, h.length_eq]

theorem IsTxBatch.headerAt (h : IsTxBatch proofs) (hb : Written byte (preimageFields root proofs))
    {s : ℕ} (hs : s < 64) : HeaderAt byte root (slotPis proofs s) := by
  have hfirst : HeaderAt byte root (slotPis proofs 0) := Written.header h.first_length hb
  have hroots := h.uniform _ (h.slot_mem (by decide : 0 < 64)) _ (h.slot_mem hs)
  obtain ⟨hact, hconfig⟩ := Prod.ext_iff.mp hroots
  have hact' : actRoot (slotPis proofs 0) = actRoot (slotPis proofs s) := hact
  have hconfig' : mainpoolConfigRoot (slotPis proofs 0) = mainpoolConfigRoot (slotPis proofs s) :=
    hconfig
  exact ⟨hfirst.root, hact' ▸ hfirst.act_root, hconfig' ▸ hfirst.config_root⟩

theorem IsTxBatch.slotAt (h : IsTxBatch proofs) (hb : Written byte (preimageFields root proofs))
    {s : ℕ} (hs : s < 64) : SlotAt byte (96 + s * 520) (slotPis proofs s) := by
  have hget := getElem?_slotPis (show s < proofs.length from h.length_eq.symm ▸ hs)
  have hb' : Written byte (headerFields root (slotPis proofs 0) ++
      proofs.flatMap batchUniquePis ++ []) := by
    rw [List.append_nil]
    exact hb
  have hslot := hb'.slotOf h.width hget
  rwa [headerFields_length root h.first_length, Nat.add_mul, Nat.mul_assoc] at hslot

end Tx

/-! ## Bridge transactions -/

section Bridge

variable {root : HashOut} {ws ds : List (List F)} {byte : ℕ → BitVec 8}

/-- The proofs of a full batch of bridge transactions: the withdrawals, then the deposits. -/
structure IsBridgeBatch (ws ds : List (List F)) : Prop where
  ws_length : ws.length = 256
  ds_length : ds.length = 256
  ws_pis : ∀ p ∈ ws, p.length = WithdrawTxPublicTargets.PI_LEN
  ds_pis : ∀ p ∈ ds, p.length = DepositTxPublicTargets.PI_LEN
  uniform : ∀ p ∈ ws ++ ds, ∀ q ∈ ws ++ ds, commonRoots p = commonRoots q

namespace IsBridgeBatch

theorem ws_width (h : IsBridgeBatch ws ds) : ∀ p ∈ ws, (batchUniquePis p).length = 77 := by
  intro p hp
  rw [batchUniquePis, List.length_drop, h.ws_pis p hp]
  rfl

theorem ds_width (h : IsBridgeBatch ws ds) : ∀ p ∈ ds, (batchUniquePis p).length = 27 := by
  intro p hp
  rw [batchUniquePis, List.length_drop, h.ds_pis p hp]
  rfl

theorem w_mem (h : IsBridgeBatch ws ds) {s : ℕ} (hs : s < 256) : slotPis ws s ∈ ws :=
  slotPis_mem (h.ws_length.symm ▸ hs)

theorem d_mem (h : IsBridgeBatch ws ds) {s : ℕ} (hs : s < 256) : slotPis ds s ∈ ds :=
  slotPis_mem (h.ds_length.symm ▸ hs)

theorem first_length (h : IsBridgeBatch ws ds) : 8 ≤ (slotPis ws 0).length := by
  rw [h.ws_pis _ (h.w_mem (by decide))]
  decide

/-- The preimage in its three sections. -/
theorem fields_eq (h : IsBridgeBatch ws ds) (root : HashOut) :
    preimageFields root (ws ++ ds) = headerFields root (slotPis ws 0) ++
      ws.flatMap batchUniquePis ++ ds.flatMap batchUniquePis := by
  have hfirst : slotPis (ws ++ ds) 0 = slotPis ws 0 :=
    List.getD_append _ _ _ _ (by rw [h.ws_length]; decide)
  rw [preimageFields_eq, hfirst, List.flatMap_append, List.append_assoc]

theorem fields_length (h : IsBridgeBatch ws ds) :
    (preimageFields root (ws ++ ds)).length = 12 + 256 * 77 + 256 * 27 := by
  rw [h.fields_eq, List.length_append, List.length_append, headerFields_length root h.first_length,
    length_flatMap_record h.ws_width, length_flatMap_record h.ds_width, h.ws_length, h.ds_length]

theorem headerAt (h : IsBridgeBatch ws ds) (hb : Written byte (preimageFields root (ws ++ ds)))
    {p : List F} (hp : p ∈ ws ++ ds) : HeaderAt byte root p := by
  have hb' : Written byte (headerFields root (slotPis ws 0) ++
      (ws.flatMap batchUniquePis ++ ds.flatMap batchUniquePis)) := by
    rw [← List.append_assoc, ← h.fields_eq]
    exact hb
  have hfirst : HeaderAt byte root (slotPis ws 0) := Written.header h.first_length hb'
  obtain ⟨hact, hconfig⟩ := Prod.ext_iff.mp
    (h.uniform _ (List.mem_append_left _ (h.w_mem (by decide : 0 < 256))) p hp)
  have hact' : actRoot (slotPis ws 0) = actRoot p := hact
  have hconfig' : mainpoolConfigRoot (slotPis ws 0) = mainpoolConfigRoot p := hconfig
  exact ⟨hfirst.root, hact' ▸ hfirst.act_root, hconfig' ▸ hfirst.config_root⟩

theorem withdrawAt (h : IsBridgeBatch ws ds) (hb : Written byte (preimageFields root (ws ++ ds)))
    {s : ℕ} (hs : s < 256) : SlotAt byte (96 + s * 616) (slotPis ws s) := by
  have hget := getElem?_slotPis (show s < ws.length from h.ws_length.symm ▸ hs)
  rw [h.fields_eq] at hb
  have hslot := hb.slotOf h.ws_width hget
  rwa [headerFields_length root h.first_length, Nat.add_mul, Nat.mul_assoc] at hslot

theorem depositAt (h : IsBridgeBatch ws ds) (hb : Written byte (preimageFields root (ws ++ ds)))
    {s : ℕ} (hs : s < 256) : SlotAt byte (157792 + s * 216) (slotPis ds s) := by
  have hget := getElem?_slotPis (show s < ds.length from h.ds_length.symm ▸ hs)
  rw [h.fields_eq, ← List.append_nil (List.flatMap _ ds), ← List.append_assoc] at hb
  have hslot := hb.slotOf h.ds_width hget
  rwa [List.length_append, headerFields_length root h.first_length,
    length_flatMap_record h.ws_width, h.ws_length, Nat.add_mul, Nat.mul_assoc] at hslot

end IsBridgeBatch

end Bridge

end Doxa.Server
