import Doxa.Hash.Poseidon
import Doxa.Lib.Positional

/-!
# Field elements as bytes

The preimage of a batch commitment is a sequence of field elements, each pushed as two
32-bit words, the low one first, and each word written in big-endian byte order. A reader
of the bytes knows where a field element starts: `FieldAt` says which element stands
there, by the two numbers that can be read off its halves.
-/

namespace Doxa.Server

open Lib

/-- Encode each field element as `[lo_u32, hi_u32]`. -/
def pushFields (fields : List F) : List (BitVec 32) :=
  fields.flatMap fun f => [BitVec.ofNat 32 f.val, BitVec.ofNat 32 (f.val >>> 32)]

/-- `u32::to_be_bytes`. -/
def toBeBytes (w : BitVec 32) : List (BitVec 8) :=
  [(w >>> 24).setWidth 8, (w >>> 16).setWidth 8, (w >>> 8).setWidth 8, w.setWidth 8]

/-- The bytes of one field element. -/
def fieldBytes (f : F) : List (BitVec 8) := (pushFields [f]).flatMap toBeBytes

theorem fieldBytes_length (f : F) : (fieldBytes f).length = 8 := rfl

theorem pushFields_append (xs ys : List F) :
    pushFields (xs ++ ys) = pushFields xs ++ pushFields ys :=
  List.flatMap_append

theorem pushFields_flatMap {α : Type*} (f : α → List F) (xs : List α) :
    pushFields (xs.flatMap f) = xs.flatMap fun x => pushFields (f x) := by
  unfold pushFields
  rw [List.flatMap_assoc]

/-- Writing the words out is writing the elements out. -/
theorem flatMap_toBeBytes_pushFields (fields : List F) :
    (pushFields fields).flatMap toBeBytes = fields.flatMap fieldBytes := by
  induction fields with
  | nil => rfl
  | cons f fields ih =>
    rw [← List.singleton_append, pushFields_append, List.flatMap_append, List.flatMap_append, ih]
    rfl

theorem toBeBytes_value (w : BitVec 32) :
    bigEndian 8 (fun k => ((toBeBytes w).getD k 0).toNat) 4 = w.toNat := by
  have hlt := w.isLt
  simp only [bigEndian, toBeBytes, List.getD_cons_zero, List.getD_cons_succ, BitVec.toNat_setWidth,
    BitVec.toNat_ushiftRight, Nat.shiftRight_eq_div_pow]
  omega

/-! ## An element at a position -/

/-- The element `x` stands at `off`: its low word, then its high word. -/
structure FieldAt (byte : ℕ → BitVec 8) (off : ℕ) (x : F) : Prop where
  lo : bigEndian 8 (fun k => (byte (off + k)).toNat) 4 = x.val % 2 ^ 32
  hi : bigEndian 8 (fun k => (byte (off + 4 + k)).toNat) 4 = x.val / 2 ^ 32

/-- The elements `a` stand at `off`, one after the other. -/
def FieldsAt (byte : ℕ → BitVec 8) (off : ℕ) {n : ℕ} (a : Fin n → F) : Prop :=
  ∀ k : Fin n, FieldAt byte (off + 8 * k.val) (a k)

/-- The eight bytes decide. -/
theorem FieldAt.congr {byte byte' : ℕ → BitVec 8} {off off' : ℕ} {x : F} (hx : FieldAt byte off x)
    (h : ∀ k < 8, byte' (off' + k) = byte (off + k)) : FieldAt byte' off' x where
  lo := by
    rw [← hx.lo]
    exact bigEndian_congr fun k hk => congrArg BitVec.toNat (h k (by omega))
  hi := by
    rw [← hx.hi]
    refine bigEndian_congr fun k hk => congrArg BitVec.toNat ?_
    rw [Nat.add_assoc, h (4 + k) (by omega), Nat.add_assoc]

theorem fieldAt_of_fieldBytes {byte : ℕ → BitVec 8} {off : ℕ} {x : F}
    (h : ∀ k < 8, byte (off + k) = (fieldBytes x).getD k 0) : FieldAt byte off x where
  lo := by
    rw [bigEndian_congr fun k hk => congrArg BitVec.toNat (h k (by omega))]
    have hbytes : ∀ k < 4, ((fieldBytes x).getD k 0).toNat =
        ((toBeBytes (BitVec.ofNat 32 x.val)).getD k 0).toNat := by
      intro k hk
      rw [fieldBytes, pushFields, List.flatMap_singleton, List.flatMap_cons,
        List.getD_append _ _ _ _ (by exact hk)]
    rw [bigEndian_congr hbytes, toBeBytes_value, BitVec.toNat_ofNat]
  hi := by
    rw [bigEndian_congr fun k hk =>
      congrArg BitVec.toNat ((congrArg byte (Nat.add_assoc off 4 k)).trans (h (4 + k) (by omega)))]
    have hbytes : ∀ k < 4, ((fieldBytes x).getD (4 + k) 0).toNat =
        ((toBeBytes (BitVec.ofNat 32 (x.val >>> 32))).getD k 0).toNat := by
      intro k hk
      rw [fieldBytes, pushFields, List.flatMap_singleton, List.flatMap_cons,
        List.getD_append_right _ _ _ _ (by exact Nat.le_add_right 4 k), List.flatMap_singleton]
      have hlength : (toBeBytes (BitVec.ofNat 32 x.val)).length = 4 := rfl
      rw [hlength, Nat.add_sub_cancel_left]
    have hlt := val_lt_word x
    rw [bigEndian_congr hbytes, toBeBytes_value, BitVec.toNat_ofNat, Nat.shiftRight_eq_div_pow,
      Nat.mod_eq_of_lt (by omega)]

/-- Element `i` of a written sequence. -/
theorem fieldAt_flatMap {byte : ℕ → BitVec 8} {fields : List F}
    (hbyte : ∀ n < fields.length * 8, byte n = (fields.flatMap fieldBytes).getD n 0) {i : ℕ} {x : F}
    (hi : fields[i]? = some x) : FieldAt byte (i * 8) x := by
  have hlt : i < fields.length := (List.getElem?_eq_some_iff.mp hi).1
  apply fieldAt_of_fieldBytes
  intro k hk
  have hrecord : (fields.flatMap fieldBytes)[i * 8 + k]? = _ :=
    getElem?_flatMap_record (fun f _ => fieldBytes_length f) hk
  rw [hbyte (i * 8 + k) (by omega), List.getD_eq_getElem?_getD, hrecord, hi, Option.bind_some,
    List.getD_eq_getElem?_getD]

end Doxa.Server
