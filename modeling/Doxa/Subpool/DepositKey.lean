import Doxa.Contract.Decoding
import Doxa.StateSync.Deposits
import Doxa.Subpool.Convert

/-!
# The key of a deposit

A deposit is filed under 32 bytes made of its note commitment. A bridge batch names it by the
bytes at `D_NOTE_COMM_OFF`, where each element is its low 32-bit word and then its high one, each
in big-endian order, and the deposit index files it under the bytes of the event, which are those
of the contract. The operator looks the deposit up under the little-endian bytes of the elements.
Each of the two encodings tells commitments apart; they give the same bytes exactly when every
half of every element reads the same in both byte orders (`deposit_keys_agree`).
-/

namespace Doxa.Subpool

open Lib Contract Client StateSync Server

/-- `B256::from_slice`. -/
def b256FromSlice (bs : List Byte) : Bytes32 := BitVec.ofNat 256 (StateSync.fromBeBytes bs)

/-- `nc_b256` of `confirm_pending_notes`. -/
def ncB256 (commitment : HashOut) : Bytes32 := b256FromSlice ((List.ofFn commitment).flatMap fToBytes)

/-- Byte `i` of an element, the lowest first. -/
def fieldByte (x : F) (i : ℕ) : ℕ := x.val / 2 ^ (8 * i) % 2 ^ 8

/-- Both halves read the same in both byte orders. -/
def Palindromic (x : F) : Prop :=
  fieldByte x 0 = fieldByte x 3 ∧ fieldByte x 1 = fieldByte x 2 ∧
    fieldByte x 4 = fieldByte x 7 ∧ fieldByte x 5 = fieldByte x 6

instance decidablePalindromic (x : F) : Decidable (Palindromic x) :=
  inferInstanceAs (Decidable (_ ∧ _))

/-! ## Two encodings of an element -/

section Elements

variable (x : F)

theorem fToBytes_eq : fToBytes x = (List.range 8).map fun i => BitVec.ofNat 8 (fieldByte x i) := by
  have hbyte : ∀ i, BitVec.ofNat 8 (fieldByte x i) = BitVec.ofNat 8 (x.val / 2 ^ (8 * i)) := by
    intro i
    apply BitVec.eq_of_toNat_eq
    rw [BitVec.toNat_ofNat, BitVec.toNat_ofNat, fieldByte, Nat.mod_mod]
  simp only [hbyte]
  rfl

theorem fieldBytes_eq : fieldBytes x =
    [3, 2, 1, 0, 7, 6, 5, 4].map fun i => BitVec.ofNat 8 (fieldByte x i) := by
  have hlt := val_lt_word x
  have hbyte : ∀ (w : BitVec 32) (k i : ℕ), w.toNat / 2 ^ k % 2 ^ 8 = fieldByte x i →
      (w >>> k).setWidth 8 = BitVec.ofNat 8 (fieldByte x i) := by
    intro w k i h
    apply BitVec.eq_of_toNat_eq
    rw [BitVec.toNat_setWidth, BitVec.toNat_ushiftRight, BitVec.toNat_ofNat,
      Nat.shiftRight_eq_div_pow, h, fieldByte, Nat.mod_mod]
  have hlast : ∀ w : BitVec 32, w.setWidth 8 = (w >>> 0).setWidth 8 := fun w => by
    rw [BitVec.ushiftRight_zero]
  have hlo : (BitVec.ofNat 32 x.val).toNat = x.val % 2 ^ 32 := BitVec.toNat_ofNat _ _
  have hhi : (BitVec.ofNat 32 (x.val >>> 32)).toNat = x.val / 2 ^ 32 := by
    rw [BitVec.toNat_ofNat, Nat.shiftRight_eq_div_pow, Nat.mod_eq_of_lt (by omega)]
  change toBeBytes (BitVec.ofNat 32 x.val) ++ toBeBytes (BitVec.ofNat 32 (x.val >>> 32)) = _
  unfold toBeBytes
  rw [hlast (BitVec.ofNat 32 x.val), hlast (BitVec.ofNat 32 (x.val >>> 32)),
    hbyte _ 24 3 (by rw [hlo, fieldByte]; omega), hbyte _ 16 2 (by rw [hlo, fieldByte]; omega),
    hbyte _ 8 1 (by rw [hlo, fieldByte]; omega), hbyte _ 0 0 (by rw [hlo, fieldByte]; omega),
    hbyte _ 24 7 (by rw [hhi, fieldByte]; omega), hbyte _ 16 6 (by rw [hhi, fieldByte]; omega),
    hbyte _ 8 5 (by rw [hhi, fieldByte]; omega), hbyte _ 0 4 (by rw [hhi, fieldByte]; omega)]
  rfl

theorem fieldByte_lt (i : ℕ) : fieldByte x i < 2 ^ 8 := Nat.mod_lt _ (by norm_num)

theorem ofNat_fieldByte (i j : ℕ) :
    BitVec.ofNat 8 (fieldByte x i) = BitVec.ofNat 8 (fieldByte x j) ↔
      fieldByte x i = fieldByte x j := by
  rw [← BitVec.toNat_inj, BitVec.toNat_ofNat, BitVec.toNat_ofNat,
    Nat.mod_eq_of_lt (fieldByte_lt x i), Nat.mod_eq_of_lt (fieldByte_lt x j)]

/-- The two encodings of an element. -/
theorem fToBytes_eq_fieldBytes : fToBytes x = fieldBytes x ↔ Palindromic x := by
  have hrange : List.range 8 = [0, 1, 2, 3, 4, 5, 6, 7] := rfl
  rw [fToBytes_eq, fieldBytes_eq, hrange]
  simp only [List.map_cons, List.map_nil, List.cons.injEq, and_true, ofNat_fieldByte, Palindromic]
  constructor
  · rintro ⟨h03, h12, -, -, h47, h56, -, -⟩
    exact ⟨h03, h12, h47, h56⟩
  · rintro ⟨h03, h12, h47, h56⟩
    exact ⟨h03, h12, h12.symm, h03.symm, h47, h56, h56.symm, h47.symm⟩

theorem fieldBytes_injective : Function.Injective fieldBytes := by
  intro x y hxy
  rw [fieldBytes_eq, fieldBytes_eq] at hxy
  simp only [List.map_cons, List.map_nil, List.cons.injEq, and_true] at hxy
  obtain ⟨h3, h2, h1, h0, h7, h6, h5, h4⟩ := hxy
  refine bytesToF_fToBytes x ▸ bytesToF_fToBytes y ▸ congrArg bytesToF ?_
  have hrange : List.range 8 = [0, 1, 2, 3, 4, 5, 6, 7] := rfl
  rw [fToBytes_eq, fToBytes_eq, hrange]
  simp only [List.map_cons, List.map_nil, h0, h1, h2, h3, h4, h5, h6, h7]

theorem fToBytes_injective : Function.Injective fToBytes :=
  Function.LeftInverse.injective bytesToF_fToBytes

end Elements

/-! ## Two encodings of a commitment -/

section Commitments

variable {f g : F → List Byte}

/-- 32 bytes and their word. -/
theorem b256FromSlice_injOn {xs ys : List Byte} (hxs : xs.length = 32) (hys : ys.length = 32)
    (h : b256FromSlice xs = b256FromSlice ys) : xs = ys := by
  have hbyte : ∀ zs : List Byte, ∀ i < zs.length, (zs.getD i 0).toNat < 2 ^ 8 :=
    fun zs i _ => (zs.getD i 0).isLt
  have hvalue : ∀ zs : List Byte, zs.length = 32 → (b256FromSlice zs).toNat = StateSync.fromBeBytes zs := by
    intro zs hzs
    have hlt := bigEndian_lt (hbyte zs)
    rw [hzs] at hlt
    rw [b256FromSlice, BitVec.toNat_ofNat, StateSync.fromBeBytes, hzs, Nat.mod_eq_of_lt hlt]
  have hnum : StateSync.fromBeBytes xs = StateSync.fromBeBytes ys := by rw [← hvalue xs hxs, ← hvalue ys hys, h]
  apply List.ext_getElem (hxs.trans hys.symm)
  intro i hi hi'
  have hdigit := bigEndian_digit (hbyte xs) hi
  have hdigit' := bigEndian_digit (hbyte ys) hi'
  unfold StateSync.fromBeBytes at hnum
  rw [hnum, hxs, ← hys, hdigit'] at hdigit
  have heq := BitVec.eq_of_toNat_eq hdigit
  rw [List.getD_eq_getElem _ _ hi, List.getD_eq_getElem _ _ hi'] at heq
  exact heq.symm

/-- Two encodings agree on a commitment when they agree on its elements. -/
theorem flatMap_eq_iff (hf : ∀ x, (f x).length = 8) (hg : ∀ x, (g x).length = 8)
    (a b : HashOut) : (List.ofFn a).flatMap f = (List.ofFn b).flatMap g ↔ ∀ k, f (a k) = g (b k) := by
  constructor
  · intro h k
    have hget : ∀ c : HashOut, (List.ofFn c)[k.val]? = some (c k) := by
      intro c
      rw [List.getElem?_ofFn, dif_pos k.isLt]
    have hleft := slice_flatMap_record (f := f) (fun x _ => hf x) (hget a)
    have hright := slice_flatMap_record (f := g) (fun x _ => hg x) (hget b)
    rw [← hleft, ← hright, h]
  · intro h
    simp only [List.ofFn_succ, List.ofFn_zero, List.flatMap_cons, List.flatMap_nil, h]

theorem flatMap_length (hf : ∀ x, (f x).length = 8) (a : HashOut) :
    ((List.ofFn a).flatMap f).length = 32 := by
  rw [length_flatMap_record (w := 8) fun x _ => hf x, List.length_ofFn]

/-- The contract's key is that of the preimage bytes. -/
theorem hashToPreimageBytes32_eq (c : HashOut) :
    hashToPreimageBytes32 c = b256FromSlice ((List.ofFn c).flatMap fieldBytes) := by
  have hlength := flatMap_length fieldBytes_length c
  rw [hashToPreimageBytes32, b256FromSlice, StateSync.fromBeBytes, hlength]
  have hgroup := bigEndian_group (w := 8)
    (fun i => (((List.ofFn c).flatMap fieldBytes).getD i 0).toNat) 4 8
  refine congrArg (BitVec.ofNat 256) (Eq.trans ?_ hgroup.symm)
  refine bigEndian_congr fun i hi => ?_
  have hwords : (pushFields (List.ofFn c)).length = 8 := by simp [pushFields]
  have hword : (pushFields (List.ofFn c))[i]? = some ((pushFields (List.ofFn c)).getD i 0) := by
    rw [List.getD_eq_getElem _ _ (by omega), List.getElem?_eq_getElem]
  rw [← toBeBytes_value]
  refine bigEndian_congr fun j hj => ?_
  have hrecord : ((pushFields (List.ofFn c)).flatMap toBeBytes)[i * 4 + j]? =
      (pushFields (List.ofFn c))[i]?.bind fun x => (toBeBytes x)[j]? :=
    getElem?_flatMap_record (f := toBeBytes) (w := 4) (fun x _ => rfl) hj
  rw [← flatMap_toBeBytes_pushFields, List.getD_eq_getElem?_getD (l := List.flatMap _ _), hrecord,
    hword, Option.bind_some, List.getD_eq_getElem?_getD (l := toBeBytes _)]

end Commitments

/-! ## The three keys -/

/-- The operator looks `commitment` up under the key that a bridge batch validates it under, the
deposit index has the deposit there, and no other commitment has one of these keys. -/
structure KeysAgree (commitment : HashOut) : Prop where
  validated : ∀ data slot, FieldsAt data.byte (Contract.dSlotOff slot + D_NOTE_COMM_OFF) commitment →
    noteKey data slot = ncB256 commitment
  filed : ∀ data slot, FieldsAt data.byte (Contract.dSlotOff slot + D_NOTE_COMM_OFF) commitment →
    ∀ deposits block value recipient assetId,
      (DepositIndex.insertAvailable deposits
        (block, .available (noteKey data slot) value recipient assetId)) (ncB256 commitment) =
          some ⟨noteKey data slot, value, recipient, .pending, block, assetId⟩
  apart : ∀ other, other ≠ commitment → ncB256 other ≠ ncB256 commitment ∧
    hashToPreimageBytes32 other ≠ hashToPreimageBytes32 commitment

section Keys

variable {a b : HashOut}

theorem ncB256_injective : Function.Injective ncB256 := by
  intro a b hab
  have hlist := b256FromSlice_injOn (flatMap_length fToBytes_length a)
    (flatMap_length fToBytes_length b) hab
  exact funext fun k =>
    fToBytes_injective ((flatMap_eq_iff fToBytes_length fToBytes_length a b).mp hlist k)

theorem hashToPreimageBytes32_injective : Function.Injective hashToPreimageBytes32 := by
  intro a b hab
  rw [hashToPreimageBytes32_eq, hashToPreimageBytes32_eq] at hab
  have hlist := b256FromSlice_injOn (flatMap_length fieldBytes_length a)
    (flatMap_length fieldBytes_length b) hab
  exact funext fun k =>
    fieldBytes_injective ((flatMap_eq_iff fieldBytes_length fieldBytes_length a b).mp hlist k)

/-- The operator's key and the contract's. -/
theorem ncB256_eq_iff (c : HashOut) :
    hashToPreimageBytes32 c = ncB256 c ↔ ∀ k, Palindromic (c k) := by
  have helements := flatMap_eq_iff fToBytes_length fieldBytes_length c c
  rw [hashToPreimageBytes32_eq, ncB256]
  constructor
  · intro h k
    have hlist := b256FromSlice_injOn (flatMap_length fieldBytes_length c)
      (flatMap_length fToBytes_length c) h
    exact (fToBytes_eq_fieldBytes (c k)).mp (helements.mp hlist.symm k)
  · intro h
    exact congrArg b256FromSlice
      (helements.mpr fun k => (fToBytes_eq_fieldBytes (c k)).mpr (h k)).symm

/-- A batch with a commitment at `off`. -/
def bytesAt (off : ℕ) (c : HashOut) : Bytes where
  length := BRIDGE_TX_PREIMAGE_LEN
  byte := fun n => ((List.ofFn c).flatMap fieldBytes).getD (n - off) 0

theorem bytesAt_fields (off : ℕ) (c : HashOut) : FieldsAt (bytesAt off c).byte off c := by
  intro k
  have hget : (List.ofFn c)[k.val]? = some (c k) := by rw [List.getElem?_ofFn, dif_pos k.isLt]
  have hwritten : FieldAt (fun n => ((List.ofFn c).flatMap fieldBytes).getD n 0) (k.val * 8) (c k) :=
    fieldAt_flatMap (fun n _ => rfl) hget
  refine hwritten.congr fun j _ => ?_
  have hsub : off + 8 * k.val + j - off = k.val * 8 + j := by omega
  exact congrArg (fun n => ((List.ofFn c).flatMap fieldBytes).getD n 0) hsub

theorem KeysAgree.key {c : HashOut} (h : KeysAgree c) : hashToPreimageBytes32 c = ncB256 c := by
  have hnames := bytesAt_fields (Contract.dSlotOff 0 + D_NOTE_COMM_OFF) c
  have hkey := h.validated _ 0 hnames
  rw [noteKey, cdB32_digest hnames] at hkey
  exact hkey

end Keys

/-- The three components agree on the key of a deposit exactly when every half of every element of
its note commitment reads the same in both byte orders. -/
theorem deposit_keys_agree (commitment : HashOut) :
    KeysAgree commitment ↔ ∀ k, Palindromic (commitment k) := by
  rw [← ncB256_eq_iff]
  constructor
  · exact KeysAgree.key
  · intro h
    have hkey : ∀ data slot,
        FieldsAt data.byte (Contract.dSlotOff slot + D_NOTE_COMM_OFF) commitment →
        noteKey data slot = ncB256 commitment := by
      intro data slot hslot
      rw [noteKey, cdB32_digest hslot, h]
    refine ⟨hkey, fun data slot hslot deposits block value recipient assetId => ?_,
      fun other hother => ⟨fun heq => hother (ncB256_injective heq),
        fun heq => hother (hashToPreimageBytes32_injective heq)⟩⟩
    rw [← hkey data slot hslot]
    exact Function.update_self _ _ _

/-- The commitment 1, 0, 0, 0. -/
theorem deposit_keys_differ : ncB256 ![1, 0, 0, 0] = 1#256 <<< 248 ∧
    hashToPreimageBytes32 ![1, 0, 0, 0] = 1#256 <<< 224 ∧ ¬ KeysAgree ![1, 0, 0, 0] := by
  have hoperator : ncB256 ![1, 0, 0, 0] = 1#256 <<< 248 := by decide +kernel
  have hcontract : hashToPreimageBytes32 ![1, 0, 0, 0] = 1#256 <<< 224 := by decide +kernel
  refine ⟨hoperator, hcontract, fun h => ?_⟩
  have hkey := h.key
  rw [hcontract, hoperator] at hkey
  exact absurd hkey (by decide +kernel)

end Doxa.Subpool
