import Doxa.Curve.Ecgfp5
import Doxa.Hash.Poseidon

/-!
# Schnorr signatures

The native verification `s G + e Q = R` with the challenge `e` hashed from the compressed
points and the message. A scalar is five 64-bit words, of which scalar multiplication reads
the lowest 319 bits.
-/

namespace Doxa

open Lib WeierstrassCurve.Affine

/-! ## Scalars -/

abbrev Scalar := Fin 5 → BitVec 64

def Scalar.BITS : ℕ := 319

/-- `to_bit_arr`. -/
def Scalar.toBitArr (s : Scalar) (i : ℕ) : Bool :=
  if h : i / 64 < 5 then (s ⟨i / 64, h⟩).getLsbD (i % 64) else false

/-- `Scalar::from_hash` drops the top two bits of the last element. -/
def Scalar.fromHash (elements : Fin 5 → F) : Scalar := fun k =>
  let h := BitVec.ofNat 64 (elements k).val
  if k = 4 then (h <<< 2) >>> 2 else h

/-- The integer of the lowest `n` bits. -/
def bitsVal (bits : ℕ → Bool) : ℕ → ℕ
  | 0 => 0
  | n + 1 => bitsVal bits n + (bits n).toNat * 2 ^ n

/-! ## Limbs -/

theorem bitsVal_congr {bits bits' : ℕ → Bool} {n : ℕ} (h : ∀ i < n, bits i = bits' i) :
    bitsVal bits n = bitsVal bits' n := by
  induction n with
  | zero => rfl
  | succ n ih =>
    rw [bitsVal, bitsVal, ih fun i hi => h i (Nat.lt_succ_of_lt hi), h n (Nat.lt_succ_self n)]

theorem bitsVal_eq_sum (bits : ℕ → Bool) (n : ℕ) :
    bitsVal bits n = ∑ i ∈ Finset.range n, (bits i).toNat * 2 ^ i := by
  induction n with
  | zero => rfl
  | succ n ih => rw [bitsVal, ih, Finset.sum_range_succ]

theorem bitsVal_add (bits : ℕ → Bool) (m n : ℕ) :
    bitsVal bits (m + n) = bitsVal bits m + 2 ^ m * bitsVal (fun j => bits (m + j)) n := by
  induction n with
  | zero => rfl
  | succ n ih =>
    rw [← Nat.add_assoc, bitsVal, ih, bitsVal, pow_add]
    ring

theorem bitsVal_lt (bits : ℕ → Bool) (n : ℕ) : bitsVal bits n < 2 ^ n := by
  induction n with
  | zero => exact Nat.one_pos
  | succ n ih =>
    have hbit := Bool.toNat_le (bits n)
    rw [bitsVal, pow_succ]
    nlinarith

theorem bitsVal_testBit (v n : ℕ) : bitsVal v.testBit n = v % 2 ^ n := by
  induction n with
  | zero => rw [pow_zero, Nat.mod_one, bitsVal]
  | succ n ih => rw [bitsVal, ih, Nat.mod_pow_succ, Nat.toNat_testBit, mul_comm]

theorem bitsVal_getLsbD {w : ℕ} (x : BitVec w) : bitsVal x.getLsbD w = x.toNat := by
  have htest : bitsVal x.getLsbD w = bitsVal x.toNat.testBit w := rfl
  rw [htest, bitsVal_testBit, Nat.mod_eq_of_lt x.isLt]

theorem bitsVal_inj {bits bits' : ℕ → Bool} {n : ℕ} (h : bitsVal bits n = bitsVal bits' n) :
    ∀ i < n, bits i = bits' i := by
  induction n with
  | zero =>
    intro i hi
    omega
  | succ n ih =>
    have hlt := bitsVal_lt bits n
    have hlt' := bitsVal_lt bits' n
    rw [bitsVal, bitsVal] at h
    have htop : bits n = bits' n := by
      cases hn : bits n <;> cases hn' : bits' n <;> simp [hn, hn'] at h ⊢ <;> omega
    rw [htop, Nat.add_right_cancel_iff] at h
    intro i hi
    rcases Nat.lt_succ_iff_lt_or_eq.mp hi with hi | rfl
    · exact ih h i hi
    · exact htop

/-- The bits of limb `k`. -/
theorem toBitArr_limb (s : Scalar) (k : Fin 5) {j : ℕ} (hj : j < 64) :
    s.toBitArr (64 * k + j) = (s k).getLsbD j := by
  have hdiv : (64 * k.val + j) / 64 = k := by omega
  have hmod : (64 * k.val + j) % 64 = j := by omega
  unfold Scalar.toBitArr
  simp only [hdiv, hmod, k.isLt, dif_pos]

theorem limb_val (s : Scalar) (k : Fin 5) :
    bitsVal (fun j => s.toBitArr (64 * k + j)) 64 = (s k).toNat := by
  rw [bitsVal_congr fun j hj => toBitArr_limb s k hj]
  exact bitsVal_getLsbD (s k)

/-- Limbs that are integers of given bits have these bits. -/
theorem toBitArr_of_limbs {s : Scalar} {bits : ℕ → Bool}
    (h : ∀ k : Fin 5, (s k).toNat = bitsVal (fun j => bits (64 * k + j)) 64) {n : ℕ}
    (hn : n < 320) : s.toBitArr n = bits n := by
  have hk : n / 64 < 5 := by omega
  have hlimb := bitsVal_inj ((limb_val s ⟨n / 64, hk⟩).trans (h ⟨n / 64, hk⟩)) (n % 64) (by omega)
  have hsplit : 64 * (n / 64) + n % 64 = n := by omega
  simp only [hsplit] at hlimb
  exact hlimb

theorem fromHash_toNat (elements : Fin 5 → F) (k : Fin 5) :
    (Scalar.fromHash elements k).toNat =
      if k = 4 then (elements k).val % 2 ^ 62 else (elements k).val := by
  have hlt : (elements k).val < 2 ^ 64 := (ZMod.val_lt _).trans (by norm_num)
  unfold Scalar.fromHash
  split
  · simp only [BitVec.toNat_ushiftRight, BitVec.toNat_shiftLeft, BitVec.toNat_ofNat,
      Nat.shiftLeft_eq, Nat.shiftRight_eq_div_pow]
    omega
  · rw [BitVec.toNat_ofNat, Nat.mod_eq_of_lt hlt]

/-- The integer of the first `n` bits, the highest first. -/
def fromTop (bits : ℕ → ℕ) : ℕ → ℕ
  | 0 => 0
  | n + 1 => 2 * fromTop bits n + bits n

theorem fromTop_eq (bits : ℕ → Bool) (n : ℕ) :
    fromTop (fun i => (bits i).toNat) n = bitsVal (fun j => bits (n - 1 - j)) n := by
  induction n with
  | zero => rfl
  | succ n ih =>
    have hsplit := bitsVal_add (fun j => bits (n - j)) 1 n
    have htail : (fun j => bits (n - (1 + j))) = fun j => bits (n - 1 - j) := by
      funext j
      rw [Nat.sub_sub]
    rw [fromTop, ih, Nat.add_sub_cancel, Nat.add_comm n 1, hsplit, htail]
    simp only [bitsVal, Nat.sub_zero, pow_zero, pow_one, mul_one, zero_add]
    omega

/-! ## Scalar multiplication -/

/-- One more than the highest set bit below `n`. -/
def topBit (bits : ℕ → Bool) : ℕ → ℕ
  | 0 => 0
  | n + 1 => if bits n then n + 1 else topBit bits n

/-- The loop of `scalar_mul` over the bits below `i`, the highest first. -/
def doubleAndAdd (P : PointEw) (bits : ℕ → Bool) : ℕ → PointEw → PointEw
  | 0, acc => acc
  | i + 1, acc => doubleAndAdd P bits i (if bits i then acc + acc + P else acc + acc)

/-- `scalar_mul` on an array of `n` bits. -/
def scalarMulBits (P : PointEw) (bits : ℕ → Bool) (n : ℕ) : PointEw :=
  if P = 0 then 0
  else
    match topBit bits n with
    | 0 => 0
    | top + 1 => doubleAndAdd P bits top P

def scalarMul (P : PointEw) (s : Scalar) : PointEw := scalarMulBits P s.toBitArr Scalar.BITS

theorem bitsVal_topBit (bits : ℕ → Bool) (n : ℕ) :
    bitsVal bits (topBit bits n) = bitsVal bits n := by
  induction n with
  | zero => rfl
  | succ n ih =>
    rw [topBit]
    split
    · rfl
    · case isFalse h => simp [bitsVal, ih, h]

theorem topBit_succ {bits : ℕ → Bool} {n t : ℕ} (h : topBit bits n = t + 1) : bits t = true := by
  induction n with
  | zero => exact absurd h (by simp [topBit])
  | succ n ih =>
    rw [topBit] at h
    split at h
    · case isTrue hbit =>
        rw [Nat.succ.inj h] at hbit
        exact hbit
    · exact ih h

theorem doubleAndAdd_eq (P : PointEw) (bits : ℕ → Bool) (i : ℕ) (acc : PointEw) :
    doubleAndAdd P bits i acc = 2 ^ i • acc + bitsVal bits i • P := by
  induction i generalizing acc with
  | zero => simp [doubleAndAdd, bitsVal]
  | succ i ih =>
    rw [doubleAndAdd, ih, bitsVal, pow_succ]
    cases bits i
    · simp only [Bool.false_eq_true, if_false, Bool.toNat_false, zero_mul, add_zero]
      rw [← two_nsmul, ← mul_nsmul']
    · simp only [if_true, Bool.toNat_true, one_mul]
      rw [← two_nsmul, nsmul_add, ← mul_nsmul', add_nsmul]
      abel

theorem scalarMulBits_eq (P : PointEw) (bits : ℕ → Bool) (n : ℕ) :
    scalarMulBits P bits n = bitsVal bits n • P := by
  unfold scalarMulBits
  split
  · case isTrue h => rw [h, nsmul_zero]
  · have hval := bitsVal_topBit bits n
    split
    · case h_1 htop =>
        rw [htop] at hval
        rw [← hval]
        exact (zero_nsmul P).symm
    · case h_2 top htop =>
        rw [htop, bitsVal, topBit_succ htop] at hval
        rw [doubleAndAdd_eq, ← hval, add_nsmul, Bool.toNat_true, one_mul, add_comm]

/-- Scalar multiplication is that of the group, by the integer of the lowest 319 bits. -/
theorem scalarMul_eq (P : PointEw) (s : Scalar) :
    scalarMul P s = bitsVal s.toBitArr Scalar.BITS • P := scalarMulBits_eq _ _ _

/-! ## Verification -/

variable (perm : State → State)

/-- The coordinates in the order they are absorbed. -/
def coeffs (x : QuinticExtension) : List F := [x.c0, x.c1, x.c2, x.c3, x.c4]

/-- `hash_n_to_m_no_pad` with five outputs. -/
def hashNoPad5 (inputs : List F) : Fin 5 → F := fun i =>
  absorb perm 0 (chunks 8 inputs) (i.castLE (by decide))

def schnorrChallenge (cr cq : QuinticExtension) (m : List F) : Scalar :=
  Scalar.fromHash (hashNoPad5 perm (coeffs cr ++ coeffs cq ++ m))

structure Signature where
  r : PointEw
  s : Scalar

/-- `schnorr_verify`; `none` is the panic of `encode`. -/
def schnorrVerify (pubkey : PointEw) (message : List F) (sig : Signature) : Option Bool := do
  let rEncoded ← encode sig.r
  let qEncoded ← encode pubkey
  let e := schnorrChallenge perm rEncoded qEncoded message
  let sg := scalarMul generator sig.s
  let eq := scalarMul pubkey e
  let result := sg + eq
  return (← encode result) = (← encode sig.r)

/-- A signature is accepted when its equation holds for points that can be encoded. -/
theorem schnorrVerify_of_eq {Q : PointEw} {m : List F} {sig : Signature} {cr cq : QuinticExtension}
    (hr : encode sig.r = some cr) (hq : encode Q = some cq)
    (heq : bitsVal sig.s.toBitArr Scalar.BITS • generator +
      bitsVal (schnorrChallenge perm cr cq m).toBitArr Scalar.BITS • Q = sig.r) :
    schnorrVerify perm Q m sig = some true := by
  unfold schnorrVerify
  rw [hr, hq]
  simp only [Option.bind_eq_bind, Option.bind_some]
  rw [scalarMul_eq, scalarMul_eq, heq, hr]
  simp

end Doxa
