import Doxa.Circuit.Aggregator
import Doxa.Server.Encoding

/-!
# The preimage parser of state-sync

State-sync reads the output commitments and the nullifiers of a submitted batch from the
preimage in the calldata. A digest is read by swapping the halves of its four elements and
then reading big-endian 64-bit numbers; a number outside the field makes `bytes_to_hash`
panic, which is `none` here. All slices are in range once the length has been checked.
-/

namespace Doxa.StateSync

open Lib Server

/-! ## The layout -/

def PRIV_TX_BATCH_SIZE : ℕ := 64
def NOTE_BATCH : ℕ := 7
def BRIDGE_TX_HALF_SIZE : ℕ := 256
def BATCH_SUBTREE_DEPTH : ℕ := 9

def TX_HEADER_SIZE : ℕ := 96
def TX_SLOT_SIZE : ℕ := 520
def TX_ACCIN_NULL_OFF : ℕ := 8
def TX_ACCOUT_COMM_OFF : ℕ := 40
def TX_NOTE_IN_OFF : ℕ := 72
def TX_NOTE_OUT_OFF : ℕ := 296

def W_SLOT_SIZE : ℕ := 616
def D_SLOT_SIZE : ℕ := 216
def D_SECTION_OFF : ℕ := TX_HEADER_SIZE + BRIDGE_TX_HALF_SIZE * W_SLOT_SIZE
def W_ACCIN_NULL_OFF : ℕ := 8
def W_ACCOUT_COMM_OFF : ℕ := 40
def D_ACCIN_NULL_OFF : ℕ := 8
def D_ACCOUT_COMM_OFF : ℕ := 40

def TX_PREIMAGE_LEN : ℕ := TX_HEADER_SIZE + PRIV_TX_BATCH_SIZE * TX_SLOT_SIZE
def BRIDGE_TX_PREIMAGE_LEN : ℕ := D_SECTION_OFF + BRIDGE_TX_HALF_SIZE * D_SLOT_SIZE

/-! ## Reading -/

/-- `from_be_bytes`. -/
def fromBeBytes (b : List (BitVec 8)) : ℕ := bigEndian 8 (fun i => (b.getD i 0).toNat) b.length

/-- The two halves of each element change places. -/
def preimageBytes32ToRaw (b : List (BitVec 8)) : List (BitVec 8) :=
  (List.range 4).flatMap fun i => slice b (i * 8 + 4) 4 ++ slice b (i * 8) 4

def readGlB32 (preimage : List (BitVec 8)) (off : ℕ) : List (BitVec 8) :=
  preimageBytes32ToRaw (slice preimage off 32)

def readGlBool (preimage : List (BitVec 8)) (off : ℕ) : Bool :=
  fromBeBytes (slice preimage off 4) != 0 || fromBeBytes (slice preimage (off + 4) 4) != 0

/-- Four big-endian numbers, each of which has to be below the field order. -/
def bytes32ToHash (b : List (BitVec 8)) : Option HashOut :=
  if ∀ i : Fin 4, fromBeBytes (slice b (i.val * 8) 8) < ORDER then
    some fun i => (fromBeBytes (slice b (i.val * 8) 8) : F)
  else none

/-- `bytes_to_hash(&read_gl_b32(preimage, off))`. -/
def readHash (preimage : List (BitVec 8)) (off : ℕ) : Option HashOut :=
  bytes32ToHash (readGlB32 preimage off)

/-! ## What a batch adds -/

/-- The commitments with their positions in the subtree, and the nullifiers of the real slots,
in the order in which they are added. -/
structure ParsedBatch where
  commitments : List (HashOut × ℕ)
  nullifiers : List HashOut

/-- The commitments at the given places. -/
def readCommitments (preimage : List (BitVec 8)) (places : List (ℕ × ℕ)) :
    Option (List (HashOut × ℕ)) :=
  places.mapM fun place => (readHash preimage place.1).map fun h => (h, place.2)

def txSlotOff (s : ℕ) : ℕ := TX_HEADER_SIZE + s * TX_SLOT_SIZE

def wSlotOff (s : ℕ) : ℕ := TX_HEADER_SIZE + s * W_SLOT_SIZE

def dSlotOff (s : ℕ) : ℕ := D_SECTION_OFF + s * D_SLOT_SIZE

/-- Where the commitments of slot `s` stand, and their positions. -/
def txCommitmentPlaces (s : ℕ) : List (ℕ × ℕ) :=
  (txSlotOff s + TX_ACCOUT_COMM_OFF, s * 8) ::
    (List.range NOTE_BATCH).map fun j => (txSlotOff s + TX_NOTE_OUT_OFF + j * 32, s * 8 + j + 1)

/-- Where the nullifiers of slot `s` stand. -/
def txNullifierOffs (s : ℕ) : List ℕ :=
  (txSlotOff s + TX_ACCIN_NULL_OFF) ::
    (List.range NOTE_BATCH).map fun j => txSlotOff s + TX_NOTE_IN_OFF + j * 32

/-- The reads of `apply_tx_preimage`. -/
def parseTxPreimage (preimage : List (BitVec 8)) : Option ParsedBatch := do
  let commitments ← readCommitments preimage
    ((List.range PRIV_TX_BATCH_SIZE).flatMap txCommitmentPlaces)
  let nullifiers ← (((List.range PRIV_TX_BATCH_SIZE).filter fun s =>
    readGlBool preimage (txSlotOff s)).flatMap txNullifierOffs).mapM (readHash preimage)
  return ⟨commitments, nullifiers⟩

/-- The reads of `apply_bridge_preimage`. -/
def parseBridgePreimage (preimage : List (BitVec 8)) : Option ParsedBatch := do
  let commitments ← readCommitments preimage
    (((List.range BRIDGE_TX_HALF_SIZE).map fun s => (wSlotOff s + W_ACCOUT_COMM_OFF, s)) ++
      (List.range BRIDGE_TX_HALF_SIZE).map fun s => (dSlotOff s + D_ACCOUT_COMM_OFF, 256 + s))
  let nullifiers ← ((((List.range BRIDGE_TX_HALF_SIZE).filter fun s =>
      readGlBool preimage (wSlotOff s)).map fun s => wSlotOff s + W_ACCIN_NULL_OFF) ++
    ((List.range BRIDGE_TX_HALF_SIZE).filter fun s =>
      readGlBool preimage (dSlotOff s)).map fun s => dSlotOff s + D_ACCIN_NULL_OFF).mapM
    (readHash preimage)
  return ⟨commitments, nullifiers⟩

/-! ## On field elements -/

section Reads

variable {preimage : List (BitVec 8)} {off : ℕ}

/-- The bytes of the preimage by position. -/
def byteOf (preimage : List (BitVec 8)) (n : ℕ) : BitVec 8 := preimage.getD n 0

theorem fromBeBytes_slice {b : List (BitVec 8)} {n : ℕ} (h : off + n ≤ b.length) :
    fromBeBytes (slice b off n) = bigEndian 8 (fun i => (byteOf b (off + i)).toNat) n := by
  rw [fromBeBytes, slice_length h]
  exact bigEndian_congr fun i hi => by rw [slice_getD hi]; rfl

theorem readGlBool_fieldAt {x : F} (h : FieldAt (byteOf preimage) off x)
    (hlength : off + 8 ≤ preimage.length) : readGlBool preimage off = decide (x ≠ 0) := by
  have hzero : x = 0 ↔ x.val = 0 := (ZMod.val_eq_zero x).symm
  rw [readGlBool, fromBeBytes_slice (by omega), fromBeBytes_slice (by omega), h.lo, h.hi,
    Bool.eq_iff_iff, Bool.or_eq_true, bne_iff_ne, bne_iff_ne, decide_eq_true_iff, ne_eq x, hzero]
  omega

theorem raw_width {b : List (BitVec 8)} (hb : b.length = 32) :
    ∀ i ∈ List.range 4, (slice b (i * 8 + 4) 4 ++ slice b (i * 8) 4).length = 8 := by
  intro i hi
  rw [List.mem_range] at hi
  rw [List.length_append, slice_length (by omega), slice_length (by omega)]

/-- The halves of element `i` after the exchange. -/
theorem byteOf_raw {b : List (BitVec 8)} (hb : b.length = 32) {i k : ℕ} (hi : i < 4) (hk : k < 8) :
    byteOf (preimageBytes32ToRaw b) (i * 8 + k) =
      if k < 4 then byteOf b (i * 8 + 4 + k) else byteOf b (i * 8 + (k - 4)) := by
  have hrecord : (preimageBytes32ToRaw b)[i * 8 + k]? = _ :=
    getElem?_flatMap_record (raw_width hb) hk
  rw [List.getElem?_range hi, Option.bind_some] at hrecord
  have hfirst : (slice b (i * 8 + 4) 4).length = 4 := slice_length (by omega)
  unfold byteOf
  rw [List.getD_eq_getElem?_getD, hrecord, ← List.getD_eq_getElem?_getD]
  split
  · rename_i hlow
    rw [List.getD_append _ _ _ _ (by omega), slice_getD hlow]
  · rename_i hhigh
    rw [List.getD_append_right _ _ _ _ (by omega), hfirst, slice_getD (by omega)]

/-- The two halves of element `i` in the order of the preimage. -/
theorem fromBeBytes_raw {b : List (BitVec 8)} (hb : b.length = 32) (i : Fin 4) :
    fromBeBytes (slice (preimageBytes32ToRaw b) (i.val * 8) 8) =
      bigEndian 8 (fun k => (byteOf b (8 * i.val + 4 + k)).toNat) 4 * 2 ^ 32 +
        bigEndian 8 (fun k => (byteOf b (8 * i.val + k)).toNat) 4 := by
  have hi := i.isLt
  have hraw : (preimageBytes32ToRaw b).length = 32 := by
    rw [preimageBytes32ToRaw, length_flatMap_record (raw_width hb), List.length_range]
  have hfirst : bigEndian 8 (fun k => (byteOf (preimageBytes32ToRaw b) (i.val * 8 + k)).toNat) 4 =
      bigEndian 8 (fun k => (byteOf b (8 * i.val + 4 + k)).toNat) 4 := by
    refine bigEndian_congr fun k hk => ?_
    rw [byteOf_raw hb hi (by omega), if_pos hk, Nat.mul_comm]
  have hsecond : bigEndian 8
      (fun k => (byteOf (preimageBytes32ToRaw b) (i.val * 8 + (4 + k))).toNat) 4 =
      bigEndian 8 (fun k => (byteOf b (8 * i.val + k)).toNat) 4 := by
    refine bigEndian_congr fun k hk => ?_
    rw [byteOf_raw hb hi (by omega), if_neg (by omega), Nat.add_sub_cancel_left, Nat.mul_comm]
  have hsplit := bigEndian_add (w := 8)
    (fun k => (byteOf (preimageBytes32ToRaw b) (i.val * 8 + k)).toNat) 4 4
  rw [hfirst, hsecond] at hsplit
  rw [fromBeBytes_slice (by omega)]
  exact hsplit

/-- The bytes of element `i` of a digest in the preimage. -/
theorem fromBeBytes_readGlB32 (hlength : off + 32 ≤ preimage.length) (i : Fin 4) :
    fromBeBytes (slice (readGlB32 preimage off) (i.val * 8) 8) =
      bigEndian 8 (fun k => (byteOf preimage (off + 8 * i.val + 4 + k)).toNat) 4 * 2 ^ 32 +
        bigEndian 8 (fun k => (byteOf preimage (off + 8 * i.val + k)).toNat) 4 := by
  have hi := i.isLt
  have hbyte : ∀ k < 32, byteOf (slice preimage off 32) k = byteOf preimage (off + k) := by
    intro k hk
    exact slice_getD hk 0
  rw [readGlB32, fromBeBytes_raw (slice_length hlength)]
  refine congrArg₂ (fun a b => a * 2 ^ 32 + b) (bigEndian_congr fun k hk => ?_)
    (bigEndian_congr fun k hk => ?_)
  · rw [hbyte _ (by omega), ← Nat.add_assoc, ← Nat.add_assoc]
  · rw [hbyte _ (by omega), ← Nat.add_assoc]

theorem readHash_fieldsAt {h : HashOut} (hh : FieldsAt (byteOf preimage) off h)
    (hlength : off + 32 ≤ preimage.length) : readHash preimage off = some h := by
  have hvalue : ∀ i : Fin 4,
      fromBeBytes (slice (readGlB32 preimage off) (i.val * 8) 8) = (h i).val := by
    intro i
    rw [fromBeBytes_readGlB32 hlength, (hh i).lo, (hh i).hi]
    omega
  have hlt : ∀ i : Fin 4, fromBeBytes (slice (readGlB32 preimage off) (i.val * 8) 8) < ORDER :=
    fun i => (hvalue i).trans_lt (ZMod.val_lt (h i))
  rw [readHash, bytes32ToHash, if_pos hlt]
  refine congrArg some (funext fun i => ?_)
  rw [hvalue i, ZMod.natCast_zmod_val]

/-- A digest that is read stands there. -/
theorem fieldsAt_of_readHash {h : HashOut} (hh : readHash preimage off = some h)
    (hlength : off + 32 ≤ preimage.length) : FieldsAt (byteOf preimage) off h := by
  unfold readHash bytes32ToHash at hh
  split at hh
  · rename_i hlt
    cases hh
    intro i
    have hlow : bigEndian 8 (fun k => (byteOf preimage (off + 8 * i.val + k)).toNat) 4 < 2 ^ 32 :=
      bigEndian_lt fun k _ => BitVec.isLt _
    have hsplit := fromBeBytes_readGlB32 hlength i
    have hval : ((fromBeBytes (slice (readGlB32 preimage off) (i.val * 8) 8) : ℕ) : F).val =
        fromBeBytes (slice (readGlB32 preimage off) (i.val * 8) 8) := ZMod.val_cast_of_lt (hlt i)
    constructor
    · rw [hval, hsplit]
      omega
    · rw [hval, hsplit]
      omega
  · cases hh

end Reads

theorem mapM_eq_some {α β : Type} {f : α → Option β} {g : α → β} {xs : List α}
    (h : ∀ x ∈ xs, f x = some (g x)) : xs.mapM f = some (xs.map g) := by
  induction xs with
  | nil => rfl
  | cons x xs ih =>
    rw [List.mapM_cons, h x List.mem_cons_self, ih fun y hy => h y (List.mem_cons_of_mem x hy)]
    rfl

/-- What stands at `off`, once it is known to be a digest. -/
def hashAt (preimage : List (BitVec 8)) (off : ℕ) : HashOut := (readHash preimage off).getD 0

/-- The reads succeed when all places hold digests. -/
theorem readCommitments_eq {preimage : List (BitVec 8)} {places : List (ℕ × ℕ)}
    (h : ∀ place ∈ places, (readHash preimage place.1).isSome) :
    readCommitments preimage places =
      some (places.map fun place => (hashAt preimage place.1, place.2)) := by
  apply mapM_eq_some
  intro place hplace
  obtain ⟨x, hx⟩ := Option.isSome_iff_exists.mp (h place hplace)
  rw [hashAt, hx]
  rfl

theorem mapM_readHash {preimage : List (BitVec 8)} {offs : List ℕ}
    (h : ∀ off ∈ offs, (readHash preimage off).isSome) :
    offs.mapM (readHash preimage) = some (offs.map (hashAt preimage)) := by
  apply mapM_eq_some
  intro off hoff
  obtain ⟨x, hx⟩ := Option.isSome_iff_exists.mp (h off hoff)
  rw [hashAt, hx]
  rfl

end Doxa.StateSync
