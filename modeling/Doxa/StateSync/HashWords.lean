import Doxa.Client.Note
import Doxa.Contract.Decoding
import Doxa.StateSync.State
import Mathlib.Data.BitVec
import Mathlib.Tactic.IntervalCases

/-!
# Digests as words

An element of `GoldilocksField` is held in a 64-bit word that need not be below the order, and
two words are equal as elements if their canonical values are. The encoders of the state sync
and the order of `HashOutput` read the words themselves. On canonical words they are the
functions of the element (`encoders_of_canonical`); on others two equal digests are encoded
differently, and the decoders refuse what the encoders wrote (`hash_encoders_exact`). What the
contract makes of the preimage encoding is the packed number in any case.
-/

namespace Doxa.StateSync.Words

open Lib Client
open Contract (U256 Bytes32 glHashToU256)
open Trees (packLE)

/-- `HashOutput`, the words of its four elements. -/
abbrev HashOutput := Fin 4 → BitVec 64

/-- `to_canonical_u64`. -/
def toCanonicalU64 (w : BitVec 64) : ℕ := if ORDER ≤ w.toNat then w.toNat - ORDER else w.toNat

/-- `from_canonical_u64`, which keeps the word. -/
def fromCanonicalU64 (n : ℕ) : BitVec 64 := BitVec.ofNat 64 n

/-- `==`, on every element. -/
def Same (h h' : HashOutput) : Prop := ∀ i, toCanonicalU64 (h i) = toCanonicalU64 (h' i)

instance (h h' : HashOutput) : Decidable (Same h h') := inferInstanceAs (Decidable (∀ _, _))

def Canonical (h : HashOutput) : Prop := ∀ i, (h i).toNat < ORDER

/-- The elements the words stand for. -/
def value (h : HashOutput) : HashOut := fun i => ((h i).toNat : F)

/-! ## The encoders -/

section Encoders

variable (h : HashOutput)

/-- Word `i` as a number. -/
def wordNat (i : ℕ) : ℕ := if hi : i < 4 then (h ⟨i, hi⟩).toNat else 0

/-- `to_be_bytes` of each word. -/
def hashToBytes32 : Bytes32 := BitVec.ofNat 256 (bigEndian 64 (wordNat h) 4)

/-- `U256::from_limbs`. -/
def hashToU256Le : U256 := BitVec.ofNat 256 (littleEndian 64 (wordNat h) 4)

/-- Word `i` of the preimage encoding, a low half and then a high half. -/
def preimageWord (i : ℕ) : ℕ :=
  if i % 2 = 0 then wordNat h (i / 2) % 2 ^ 32 else wordNat h (i / 2) / 2 ^ 32

def hashToPreimageBytes32 : Bytes32 := BitVec.ofNat 256 (bigEndian 32 (preimageWord h) 8)

/-- `Ord::cmp`, that of the words. -/
def cmp (h h' : HashOutput) : Ordering :=
  (compare (h 0).toNat (h' 0).toNat).then ((compare (h 1).toNat (h' 1).toNat).then
    ((compare (h 2).toNat (h' 2).toNat).then (compare (h 3).toNat (h' 3).toNat)))

end Encoders

/-! ## The decoders -/

/-- `{:#018x}`. -/
def hex64 (n : ℕ) : String := "0x" ++ hexEncode (leBytes 8 n).reverse

def bytes32ToHash (b : Bytes32) : Except Failure HashOutput :=
  collect fun i : Fin 4 =>
    let val := b.toNat / 2 ^ (64 * (4 - 1 - i.val)) % 2 ^ 64
    if val < ORDER then .ok (fromCanonicalU64 val)
    else .error (.error (s!"bytes32 limb {i.val} out of Goldilocks field range: " ++
      s!"{hex64 val} >= {hex64 ORDER}"))

def u256LeToHash (v : U256) : Except Failure HashOutput :=
  collect fun i : Fin 4 =>
    let l := v.toNat / 2 ^ (64 * i.val) % 2 ^ 64
    if l < ORDER then .ok (fromCanonicalU64 l)
    else .error (.error s!"U256 limb {i.val} out of Goldilocks range: {hex64 l}")

/-! ## Words and elements -/

section Values

variable {h h' : HashOutput}

/-- A word is less than twice the order. -/
theorem toCanonicalU64_eq (w : BitVec 64) : toCanonicalU64 w = w.toNat % ORDER := by
  have hw := w.isLt
  have horder : ORDER = 18446744069414584321 := rfl
  unfold toCanonicalU64
  split
  · rw [Nat.mod_eq_sub_mod (by omega), Nat.mod_eq_of_lt (by omega)]
  · rw [Nat.mod_eq_of_lt (by omega)]

/-- Digests are equal when they stand for the same elements. -/
theorem same_iff : Same h h' ↔ value h = value h' := by
  rw [funext_iff]
  refine forall_congr' fun i => ?_
  rw [toCanonicalU64_eq, toCanonicalU64_eq, value, value, ZMod.natCast_eq_natCast_iff]
  rfl

theorem Same.refl (h : HashOutput) : Same h h := fun _ => rfl

theorem Canonical.val (hc : Canonical h) (i : Fin 4) : (value h i).val = (h i).toNat :=
  ZMod.val_cast_of_lt (hc i)

/-- Canonical words are those of the elements. -/
theorem Canonical.eq (hc : Canonical h) (hc' : Canonical h') (hsame : Same h h') : h = h' := by
  funext i
  have hi := hsame i
  rw [toCanonicalU64_eq, toCanonicalU64_eq, Nat.mod_eq_of_lt (hc i), Nat.mod_eq_of_lt (hc' i)] at hi
  exact BitVec.eq_of_toNat_eq hi

theorem wordNat_lt (h : HashOutput) : ∀ i < 4, wordNat h i < 2 ^ 64 := by
  intro i hi
  rw [wordNat, dif_pos hi]
  exact (h ⟨i, hi⟩).isLt

theorem wordNat_fin (h : HashOutput) (i : Fin 4) : wordNat h i.val = (h i).toNat := dif_pos i.isLt

theorem preimageWord_lt (h : HashOutput) : ∀ i < 8, preimageWord h i < 2 ^ 32 := by
  intro i hi
  have hword := wordNat_lt h (i / 2) (by omega)
  unfold preimageWord
  split <;> omega

theorem hashToBytes32_toNat (h : HashOutput) :
    (hashToBytes32 h).toNat = bigEndian 64 (wordNat h) 4 := by
  rw [hashToBytes32, BitVec.toNat_ofNat, Nat.mod_eq_of_lt (bigEndian_lt (wordNat_lt h))]

theorem hashToU256Le_toNat (h : HashOutput) :
    (hashToU256Le h).toNat = littleEndian 64 (wordNat h) 4 := by
  rw [hashToU256Le, BitVec.toNat_ofNat, Nat.mod_eq_of_lt (littleEndian_lt (wordNat_lt h))]

theorem hashToPreimageBytes32_toNat (h : HashOutput) :
    (hashToPreimageBytes32 h).toNat = bigEndian 32 (preimageWord h) 8 := by
  rw [hashToPreimageBytes32, BitVec.toNat_ofNat, Nat.mod_eq_of_lt (bigEndian_lt (preimageWord_lt h))]

/-- The digits of the two numbers are the words. -/
theorem hashToBytes32_digit (h : HashOutput) (i : Fin 4) :
    (hashToBytes32 h).toNat / 2 ^ (64 * (4 - 1 - i.val)) % 2 ^ 64 = (h i).toNat := by
  rw [hashToBytes32_toNat, bigEndian_digit (wordNat_lt h) i.isLt, wordNat_fin]

theorem hashToU256Le_digit (h : HashOutput) (i : Fin 4) :
    (hashToU256Le h).toNat / 2 ^ (64 * i.val) % 2 ^ 64 = (h i).toNat := by
  have hlt := littleEndian_lt (wordNat_lt h)
  have hdigits := littleEndian_injective (fun i _ => Nat.mod_lt _ (by positivity)) (wordNat_lt h)
    ((littleEndian_digits _ 4).trans (Nat.mod_eq_of_lt hlt))
  rw [hashToU256Le_toNat, hdigits i.val i.isLt, wordNat_fin]

/-- The contract turns the preimage encoding into the packed number. -/
theorem glHashToU256_preimage (h : HashOutput) :
    glHashToU256 (hashToPreimageBytes32 h) = hashToU256Le h := by
  apply BitVec.eq_of_toNat_eq
  rw [Contract.glHashToU256_words (preimageWord_lt h) (hashToPreimageBytes32_toNat h),
    hashToU256Le_toNat]
  simp only [littleEndian, preimageWord]
  norm_num
  omega

/-- The encoders tell the words apart. -/
theorem hashToBytes32_injective : Function.Injective hashToBytes32 := by
  intro h h' heq
  funext i
  apply BitVec.eq_of_toNat_eq
  rw [← hashToBytes32_digit h i, heq, hashToBytes32_digit h' i]

theorem hashToU256Le_injective : Function.Injective hashToU256Le := by
  intro h h' heq
  funext i
  apply BitVec.eq_of_toNat_eq
  rw [← hashToU256Le_digit h i, heq, hashToU256Le_digit h' i]

theorem hashToPreimageBytes32_injective : Function.Injective hashToPreimageBytes32 := by
  intro h h' heq
  apply hashToU256Le_injective
  rw [← glHashToU256_preimage h, heq, glHashToU256_preimage h']

theorem cmp_self (h : HashOutput) : cmp h h = .eq := by
  simp [cmp]

end Values

/-! ## Canonical words -/

section Canonical

variable {h h' : HashOutput}

/-- On canonical words the encoders are those of the elements. -/
theorem encoders_of_canonical (hc : Canonical h) :
    hashToBytes32 h = StateSync.hashToBytes32 (value h) ∧ hashToU256Le h = packLE (value h) ∧
      hashToPreimageBytes32 h = Contract.hashToPreimageBytes32 (value h) := by
  have hval := hc.val
  refine ⟨?_, ?_, ?_⟩
  · refine congrArg (BitVec.ofNat 256) (bigEndian_congr fun i hi => ?_)
    rw [wordNat, dif_pos hi, dif_pos hi, hval]
  · refine congrArg (BitVec.ofNat 256) ?_
    rw [hval, hval, hval, hval, ← wordNat_fin h 0, ← wordNat_fin h 1, ← wordNat_fin h 2,
      ← wordNat_fin h 3]
    simp only [littleEndian]
    norm_num
    omega
  · refine congrArg (BitVec.ofNat 256) (bigEndian_congr fun i hi => ?_)
    have hlow : ∀ k : Fin 4, (BitVec.ofNat 32 (value h k).val).toNat = wordNat h k.val % 2 ^ 32 := by
      intro k
      rw [BitVec.toNat_ofNat, hval, wordNat_fin]
    have hhigh : ∀ k : Fin 4, (BitVec.ofNat 32 ((value h k).val >>> 32)).toNat =
        wordNat h k.val / 2 ^ 32 := by
      intro k
      have hlt := (h k).isLt
      rw [BitVec.toNat_ofNat, hval, wordNat_fin, Nat.shiftRight_eq_div_pow, Nat.mod_eq_of_lt (by omega)]
    interval_cases i
    · exact (hlow 0).symm
    · exact (hhigh 0).symm
    · exact (hlow 1).symm
    · exact (hhigh 1).symm
    · exact (hlow 2).symm
    · exact (hhigh 2).symm
    · exact (hlow 3).symm
    · exact (hhigh 3).symm

/-- Equal digests have equal encodings and compare as equal. -/
structure EncodersAgree (h h' : HashOutput) : Prop where
  bytes32 : hashToBytes32 h = hashToBytes32 h'
  u256_le : hashToU256Le h = hashToU256Le h'
  preimage : hashToPreimageBytes32 h = hashToPreimageBytes32 h'
  order : cmp h h' = .eq

/-- The decoders give the digest back, and the contract the packed number. -/
structure RoundTrips (h : HashOutput) : Prop where
  bytes32 : ∃ g, bytes32ToHash (hashToBytes32 h) = .ok g ∧ Same g h
  u256_le : ∃ g, u256LeToHash (hashToU256Le h) = .ok g ∧ Same g h
  contract : glHashToU256 (hashToPreimageBytes32 h) = hashToU256Le h

theorem encodersAgree_iff : EncodersAgree h h' ↔ h = h' := by
  constructor
  · exact fun hagree => hashToU256Le_injective hagree.u256_le
  · rintro rfl
    exact ⟨rfl, rfl, rfl, cmp_self h⟩

section Limbs

variable {limb : Fin 4 → ℕ} {message : Fin 4 → String}

/-- The limbs of what is accepted are canonical. -/
theorem canonical_of_decoded {g : HashOutput} (hlimb : ∀ i, limb i = (h i).toNat)
    (hg : (collect fun i : Fin 4 => if limb i < ORDER then .ok (fromCanonicalU64 (limb i))
      else .error (.error (message i))) = .ok g) : Canonical h := by
  intro i
  have hi := collect_apply hg i
  by_cases hlt : limb i < ORDER
  · rwa [← hlimb i]
  · rw [if_neg hlt] at hi
    cases hi

/-- A limb is taken exactly if it is canonical, and then as it stands. -/
theorem limbs_decoded (hlimb : ∀ i, limb i = (h i).toNat) :
    (∃ g, (collect fun i : Fin 4 => if limb i < ORDER then .ok (fromCanonicalU64 (limb i))
      else .error (.error (message i))) = .ok g ∧ Same g h) ↔ Canonical h := by
  constructor
  · rintro ⟨g, hg, -⟩
    exact canonical_of_decoded hlimb hg
  · intro hc
    refine ⟨h, collect_eq_ok fun i => ?_, Same.refl h⟩
    rw [if_pos (by rw [hlimb i]; exact hc i), hlimb i, fromCanonicalU64, BitVec.ofNat_toNat,
      BitVec.setWidth_eq]

end Limbs

theorem roundTrips_iff : RoundTrips h ↔ Canonical h := by
  constructor
  · intro htrips
    exact (limbs_decoded (hashToBytes32_digit h)).mp htrips.bytes32
  · intro hc
    exact ⟨(limbs_decoded (hashToBytes32_digit h)).mpr hc,
      (limbs_decoded (hashToU256Le_digit h)).mpr hc, glHashToU256_preimage h⟩

end Canonical

/-- The encoders respect equality and are inverted exactly on canonical words. -/
theorem hash_encoders_exact (h h' : HashOutput) :
    (Same h h' → EncodersAgree h h') ∧ RoundTrips h ∧ RoundTrips h' ↔ Canonical h ∧ Canonical h' := by
  rw [roundTrips_iff, roundTrips_iff]
  constructor
  · exact fun hall => hall.2
  · rintro ⟨hc, hc'⟩
    exact ⟨fun hsame => encodersAgree_iff.mpr (hc.eq hc' hsame), hc, hc'⟩

/-- The order in word 0 is zero, and is encoded otherwise; its encodings are refused. -/
theorem order_word : ∃ h h' : HashOutput, Same h h' ∧ (h 0).toNat = ORDER ∧ h' = 0 ∧
    hashToBytes32 h ≠ hashToBytes32 h' ∧ hashToU256Le h ≠ hashToU256Le h' ∧
    hashToPreimageBytes32 h ≠ hashToPreimageBytes32 h' ∧ cmp h h' = .gt ∧
    (∀ g, bytes32ToHash (hashToBytes32 h) ≠ .ok g) ∧ ∀ g, u256LeToHash (hashToU256Le h) ≠ .ok g := by
  let h : HashOutput := ![BitVec.ofNat 64 ORDER, 0, 0, 0]
  have hword : (h 0).toNat = ORDER := by decide
  have hsame : Same h 0 := by decide
  have hrefused : ¬ Canonical h := by
    intro hc
    have hlt := hc 0
    rw [hword] at hlt
    exact Nat.lt_irrefl _ hlt
  have hne : h ≠ 0 := fun heq => absurd (congrFun heq 0) (by decide)
  refine ⟨h, 0, hsame, hword, rfl, fun heq => hne (hashToBytes32_injective heq),
    fun heq => hne (hashToU256Le_injective heq), fun heq => hne (hashToPreimageBytes32_injective heq),
    by decide, fun g hg => ?_, fun g hg => ?_⟩
  · exact hrefused (canonical_of_decoded (hashToBytes32_digit h) hg)
  · exact hrefused (canonical_of_decoded (hashToU256Le_digit h) hg)

end Doxa.StateSync.Words
