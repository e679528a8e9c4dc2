import Doxa.Contract.State
import Doxa.Server.Encoding
import Doxa.Trees.Agreement

/-!
# What the contract decodes

The decoders of `DoxaContract` on calldata that holds field elements. All of them start
from one 32-byte word, which is eight 32-bit words in big-endian order: `cdGLU64` keeps the
first of them, `cdBool` compares the first two with zero, and `glHashToU256` reverses their
order. So a scalar comes out modulo `2^32`, a flag and a digest come out exactly, and the
limbs of a number come out exactly when they are below `2^32`.
-/

namespace Doxa.Contract

open Lib Server Trees

variable (data : Bytes) (off : ℕ)

/-- Word `i` of the 32 bytes at `off`. -/
def wordAt (i : ℕ) : ℕ := bigEndian 8 (fun k => (data.byte (off + (i * 4 + k))).toNat) 4

theorem byte_lt (i : ℕ) : (data.byte i).toNat < 2 ^ 8 := (data.byte i).isLt

theorem wordAt_lt (i : ℕ) : wordAt data off i < 2 ^ 32 := bigEndian_lt fun _ _ => byte_lt data _

theorem calldataload_toNat : (calldataload data off).toNat = bigEndian 32 (wordAt data off) 8 := by
  have hbytes : (calldataload data off).toNat =
      bigEndian 8 (fun i => (data.byte (off + i)).toNat) (8 * 4) := by
    have hpart : ∀ i, ((data.byte (off + i)).setWidth 256).toNat = (data.byte (off + i)).toNat := by
      intro i
      rw [BitVec.toNat_setWidth, Nat.mod_eq_of_lt]
      exact (byte_lt data (off + i)).trans (by norm_num)
    rw [calldataload, toNat_shift_loop (fun i => (data.byte (off + i)).setWidth 256)]
    · exact bigEndian_congr fun i _ => hpart i
    · intro i _
      rw [hpart]
      exact byte_lt data (off + i)
    · norm_num
  rw [hbytes, bigEndian_group]
  rfl

/-- The leading words. -/
theorem calldataload_div {m n : ℕ} (h : m + n = 8) :
    (calldataload data off).toNat / 2 ^ (32 * n) = bigEndian 32 (wordAt data off) m := by
  rw [calldataload_toNat, ← h]
  exact bigEndian_div fun i _ => wordAt_lt data off i

theorem cdGLU64_toNat : (cdGLU64 data off).toNat = wordAt data off 0 := by
  have hdiv := calldataload_div data off (show 1 + 7 = 8 from rfl)
  rw [cdGLU64, BitVec.toNat_ushiftRight, Nat.shiftRight_eq_div_pow]
  simpa [bigEndian] using hdiv

theorem cdBool_eq : cdBool data off = true ↔ wordAt data off 0 ≠ 0 ∨ wordAt data off 1 ≠ 0 := by
  have hdiv := calldataload_div data off (show 2 + 6 = 8 from rfl)
  have hword : (calldataload data off >>> 192).toNat =
      wordAt data off 0 * 2 ^ 32 + wordAt data off 1 := by
    rw [BitVec.toNat_ushiftRight, Nat.shiftRight_eq_div_pow]
    simpa [bigEndian] using hdiv
  have hzero : (0 : U256).toNat = 0 := rfl
  rw [cdBool, bne_iff_ne, ne_eq, ← BitVec.toNat_inj, hword, hzero]
  omega

/-- `glHashToU256` turns the word order around. -/
theorem glHashToU256_words {w : Bytes32} {d : ℕ → ℕ} (hd : ∀ i < 8, d i < 2 ^ 32)
    (hw : w.toNat = bigEndian 32 d 8) : (glHashToU256 w).toNat = littleEndian 32 d 8 := by
  have hmask : (0xFFFFFFFF#256).toNat = 2 ^ 32 - 1 := rfl
  have hword : ∀ i < 8, ((w >>> (32 * (7 - i))) &&& 0xFFFFFFFF#256).toNat = d i := by
    intro i hi
    rw [BitVec.toNat_and, BitVec.toNat_ushiftRight, Nat.shiftRight_eq_div_pow, hw, hmask,
      Nat.and_two_pow_sub_one_eq_mod]
    exact bigEndian_digit hd hi
  have hloop : glHashToU256 w = forLoop (fun i (v : BitVec 256) =>
      v ||| (((w >>> (32 * (7 - i))) &&& 0xFFFFFFFF#256) <<< (32 * i))) 8 0 := by
    have htop : w >>> 224 = (w >>> 224) &&& 0xFFFFFFFF#256 := by
      apply BitVec.eq_of_toNat_eq
      have hlt := w.isLt
      rw [BitVec.toNat_and, BitVec.toNat_ushiftRight, Nat.shiftRight_eq_div_pow, hmask,
        Nat.and_two_pow_sub_one_eq_mod, Nat.mod_eq_of_lt (by omega)]
    rw [glHashToU256, htop]
    simp [forLoop]
  rw [hloop, toNat_place_loop]
  · exact littleEndian_congr hword
  · intro i hi
    rw [hword i hi]
    exact hd i hi
  · norm_num

theorem glHashToU256_cdB32 :
    (glHashToU256 (cdB32 data off)).toNat = littleEndian 32 (wordAt data off) 8 :=
  glHashToU256_words (fun i _ => wordAt_lt data off i) (calldataload_toNat data off)

/-! ## On field elements -/

/-- `hash_to_preimage_bytes32`: the words of the elements, the first one most significant. -/
def hashToPreimageBytes32 (h : HashOut) : Bytes32 :=
  BitVec.ofNat 256 (bigEndian 32 (fun i => ((pushFields (List.ofFn h)).getD i 0).toNat) 8)

variable {data off}

theorem wordAt_lo {x : F} {i : ℕ} (h : FieldAt data.byte (off + 8 * i) x) :
    wordAt data off (2 * i) = x.val % 2 ^ 32 := by
  rw [← h.lo]
  refine bigEndian_congr fun k _ => ?_
  rw [show off + (2 * i * 4 + k) = off + 8 * i + k by ring]

theorem wordAt_hi {x : F} {i : ℕ} (h : FieldAt data.byte (off + 8 * i) x) :
    wordAt data off (2 * i + 1) = x.val / 2 ^ 32 := by
  rw [← h.hi]
  refine bigEndian_congr fun k _ => ?_
  rw [show off + ((2 * i + 1) * 4 + k) = off + 8 * i + 4 + k by ring]

theorem cdGLU64_fieldAt {x : F} (h : FieldAt data.byte off x) :
    (cdGLU64 data off).toNat = x.val % 2 ^ 32 := by
  rw [cdGLU64_toNat]
  exact wordAt_lo (i := 0) h

theorem cdBool_fieldAt {x : F} (h : FieldAt data.byte off x) : cdBool data off = decide (x ≠ 0) := by
  have hlo : wordAt data off 0 = x.val % 2 ^ 32 := wordAt_lo (i := 0) h
  have hhi : wordAt data off 1 = x.val / 2 ^ 32 := wordAt_hi (i := 0) h
  have hzero : x = 0 ↔ x.val = 0 := (ZMod.val_eq_zero x).symm
  rw [Bool.eq_iff_iff, cdBool_eq, hlo, hhi, decide_eq_true_iff, ne_eq x, hzero]
  omega

/-- The words of a digest in calldata are those that were pushed. -/
theorem wordAt_digest {h : HashOut} (hh : FieldsAt data.byte off h) {i : ℕ} (hi : i < 8) :
    wordAt data off i = ((pushFields (List.ofFn h)).getD i 0).toNat := by
  have hshift : ∀ x : F, (BitVec.ofNat 32 (x.val >>> 32)).toNat = x.val / 2 ^ 32 := by
    intro x
    have hlt := val_lt_word x
    rw [BitVec.toNat_ofNat, Nat.shiftRight_eq_div_pow, Nat.mod_eq_of_lt (by omega)]
  have hlo : ∀ k : Fin 4, wordAt data off (2 * k.val) = (BitVec.ofNat 32 (h k).val).toNat :=
    fun k => wordAt_lo (hh k)
  have hhi : ∀ k : Fin 4,
      wordAt data off (2 * k.val + 1) = (BitVec.ofNat 32 ((h k).val >>> 32)).toNat :=
    fun k => (wordAt_hi (hh k)).trans (hshift (h k)).symm
  match i, hi with
  | 0, _ => exact hlo 0
  | 1, _ => exact hhi 0
  | 2, _ => exact hlo 1
  | 3, _ => exact hhi 1
  | 4, _ => exact hlo 2
  | 5, _ => exact hhi 2
  | 6, _ => exact hlo 3
  | 7, _ => exact hhi 3

theorem cdB32_digest {h : HashOut} (hh : FieldsAt data.byte off h) :
    cdB32 data off = hashToPreimageBytes32 h := by
  apply BitVec.eq_of_toNat_eq
  have hword := bigEndian_congr (w := 32) fun i hi => wordAt_digest hh (i := i) hi
  have hlt := (cdB32 data off).isLt
  rw [cdB32, calldataload_toNat, hword] at hlt
  rw [cdB32, calldataload_toNat, hword, hashToPreimageBytes32, BitVec.toNat_ofNat,
    Nat.mod_eq_of_lt hlt]

theorem glHashToU256_digest {h : HashOut} (hh : FieldsAt data.byte off h) :
    glHashToU256 (cdB32 data off) = packLE h := by
  apply BitVec.eq_of_toNat_eq
  have h0 := val_lt_word (h 0)
  have h1 := val_lt_word (h 1)
  have h2 := val_lt_word (h 2)
  have h3 := val_lt_word (h 3)
  have hlo : ∀ k : Fin 4, wordAt data off (2 * k.val) = (h k).val % 2 ^ 32 :=
    fun k => wordAt_lo (hh k)
  have hhi : ∀ k : Fin 4, wordAt data off (2 * k.val + 1) = (h k).val / 2 ^ 32 :=
    fun k => wordAt_hi (hh k)
  have hsum : littleEndian 32 (wordAt data off) 8 =
      (h 0).val + 2 ^ 64 * ((h 1).val + 2 ^ 64 * ((h 2).val + 2 ^ 64 * (h 3).val)) := by
    have e0 : wordAt data off 0 = (h 0).val % 2 ^ 32 := hlo 0
    have e1 : wordAt data off 1 = (h 0).val / 2 ^ 32 := hhi 0
    have e2 : wordAt data off 2 = (h 1).val % 2 ^ 32 := hlo 1
    have e3 : wordAt data off 3 = (h 1).val / 2 ^ 32 := hhi 1
    have e4 : wordAt data off 4 = (h 2).val % 2 ^ 32 := hlo 2
    have e5 : wordAt data off 5 = (h 2).val / 2 ^ 32 := hhi 2
    have e6 : wordAt data off 6 = (h 3).val % 2 ^ 32 := hlo 3
    have e7 : wordAt data off 7 = (h 3).val / 2 ^ 32 := hhi 3
    simp only [littleEndian, e0, e1, e2, e3, e4, e5, e6, e7]
    omega
  rw [glHashToU256_cdB32, hsum, packLE, BitVec.toNat_ofNat, Nat.mod_eq_of_lt (by omega)]

/-! ## Limbs -/

/-- The number on `n` limbs, the least significant one first. -/
def limbsValue {n : ℕ} (a : Fin n → F) : ℕ := ∑ k, (a k).val * 2 ^ (32 * k.val)

/-- The number the contract reads from `n` limbs. -/
def lowLimbsValue {n : ℕ} (a : Fin n → F) : ℕ := ∑ k, (a k).val % 2 ^ 32 * 2 ^ (32 * k.val)

/-- The reads agree with the limbs exactly when no limb exceeds 32 bits. -/
theorem lowLimbsValue_eq_iff {n : ℕ} (a : Fin n → F) :
    lowLimbsValue a = limbsValue a ↔ ∀ k, (a k).val < 2 ^ 32 := by
  have hle : ∀ k ∈ Finset.univ, (a k).val % 2 ^ 32 * 2 ^ (32 * k.val) ≤
      (a k).val * 2 ^ (32 * k.val) :=
    fun k _ => Nat.mul_le_mul_right _ (Nat.mod_le _ _)
  rw [lowLimbsValue, limbsValue, Finset.sum_eq_sum_iff_of_le hle]
  constructor
  · intro heq k
    have hmod := Nat.eq_of_mul_eq_mul_right (by positivity) (heq k (Finset.mem_univ k))
    rw [← hmod]
    exact Nat.mod_lt _ (by norm_num)
  · intro hlt k _
    rw [Nat.mod_eq_of_lt (hlt k)]

/-- The lowest `n` limbs of a number. -/
def limbsOf (n x : ℕ) : Fin n → F := fun k => ((x / 2 ^ (32 * k.val) % 2 ^ 32 : ℕ) : F)

theorem limbsOf_val (n x : ℕ) (k : Fin n) :
    (limbsOf n x k).val = x / 2 ^ (32 * k.val) % 2 ^ 32 := by
  have hlt : x / 2 ^ (32 * k.val) % 2 ^ 32 < 2 ^ 32 := Nat.mod_lt _ (by norm_num)
  exact ZMod.val_natCast_of_lt (hlt.trans (by norm_num))

theorem lowLimbsValue_limbsOf (n x : ℕ) : lowLimbsValue (limbsOf n x) = x % 2 ^ (32 * n) := by
  rw [← littleEndian_digits, littleEndian_eq_sum]
  refine Finset.sum_congr rfl fun k _ => ?_
  rw [limbsOf_val, Nat.mod_mod]

theorem limb_loop {n : ℕ} {a : Fin n → F} (ha : FieldsAt data.byte off a) (hn : n ≤ 8) :
    (forLoop (fun i v => v ||| (cdGLU64 data (off + 8 * i) <<< (32 * i))) n (0 : U256)).toNat =
      lowLimbsValue a := by
  have hlimb : ∀ k : Fin n, (cdGLU64 data (off + 8 * k.val)).toNat = (a k).val % 2 ^ 32 :=
    fun k => cdGLU64_fieldAt (ha k)
  rw [toNat_place_loop, littleEndian_eq_sum, lowLimbsValue]
  · exact Finset.sum_congr rfl fun k _ => by rw [hlimb k]
  · intro i hi
    rw [hlimb ⟨i, hi⟩]
    exact Nat.mod_lt _ (by norm_num)
  · omega

theorem cdGLU256_fieldsAt {a : Fin 8 → F} (ha : FieldsAt data.byte off a) :
    (cdGLU256 data off).toNat = lowLimbsValue a := limb_loop ha le_rfl

theorem cdGLAddress_fieldsAt {a : Fin 5 → F} (ha : FieldsAt data.byte off a) :
    (cdGLAddress data off).toNat = lowLimbsValue a := by
  have hlt : lowLimbsValue a < 2 ^ 160 := by
    have hbound := littleEndian_lt (w := 32) (n := 5)
      (d := fun i => if h : i < 5 then (a ⟨i, h⟩).val % 2 ^ 32 else 0) ?_
    · rw [littleEndian_eq_sum] at hbound
      simpa [lowLimbsValue] using hbound
    · intro i hi
      rw [dif_pos hi]
      exact Nat.mod_lt _ (by norm_num)
  rw [cdGLAddress, BitVec.toNat_setWidth, limb_loop ha (by norm_num), Nat.mod_eq_of_lt hlt]

end Doxa.Contract
