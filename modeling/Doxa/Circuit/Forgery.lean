import Doxa.Circuit.Signature

/-!
# Every key, every message

The compression gate is satisfied by the point `N` of order two whatever the key is, the
last-gate selectors are free, and adding `N` is undone by the next doubling. So the gadget
is satisfied for every key and message: the accumulator runs through the doubles of the
offset, shifted by `N` where a challenge bit is set, and ends in a point that does not
depend on the bits.
-/

namespace Doxa.Circuit

open Lib

/-! ## Steps of the chain -/

/-- The wires of a finite point. -/
def ofOdd (P : ecgfp5.OddPoint) : LocalPointEw := ⟨P.x, P.y⟩

/-- The point of order two. -/
def orderTwo : LocalPointEw := ⟨ECGFP5_A_DIV_3, 0⟩

/-- The accumulator with `N` added where the bit is set. -/
def shiftIf (b : Bool) (P : ecgfp5.OddPoint) : ecgfp5.OddPoint := if b then P.shift else P

theorem shiftIf_double (b : Bool) (P : ecgfp5.OddPoint) : (shiftIf b P).double = P.double := by
  cases b
  · rfl
  · exact P.double_shift

theorem p2Double_double (s : F) (P : ecgfp5.OddPoint) :
    P2DoubleOfP1 s (ofOdd P) (ofOdd P.double) := by
  have hy := P.y_ne_zero
  have htwo := ecgfp5.two_ne_zero
  have hA : ecgfp5.A = ECGFP5_CAP_A := rfl
  refine ⟨assertEqual_of_eq ?_, assertEqual_of_eq ?_⟩
  · simp only [ofOdd, DoubleOdd.OddPoint.double, hA]
    field_simp
    ring
  · simp only [ofOdd, DoubleOdd.OddPoint.double, hA]
    field_simp
    ring

theorem addTwo_shift (s : F) (P : ecgfp5.OddPoint) :
    AddTwoPoints s (ofOdd P) orderTwo (ofOdd P.shift) := by
  have hu : P.x - ecgfp5.e ≠ 0 := sub_ne_zero.mpr P.x_ne
  have hfactor := P.onCurve.factor
  have he : orderTwo.x = ecgfp5.e := rfl
  have hy : orderTwo.y = 0 := rfl
  refine ⟨assertEqual_of_eq ?_, assertEqual_of_eq ?_⟩
  · simp only [ofOdd, DoubleOdd.OddPoint.shift, he, hy]
    field_simp
    linear_combination -(P.x - ecgfp5.e) * hfactor
  · simp only [ofOdd, DoubleOdd.OddPoint.shift, he, hy]
    field_simp
    ring

/-- One step of the forged chain: a doubling and, where the bit is set, the shift. -/
theorem chain_shiftIf (b : Bool) (P : ecgfp5.OddPoint) (p2 : LocalPointEw) :
    DoubleAccChain (ofOdd P) orderTwo p2 (ofOdd (shiftIf b P)) 0 (b.toNat : F) 0 := by
  cases b
  · refine ⟨⟨by simp, by simp⟩, ⟨assertEqual_of_eq rfl, assertEqual_of_eq rfl⟩, ?_, ?_, ?_⟩
    · simp only [Bool.toNat_false, Nat.cast_zero, zero_mul]
      exact ⟨assertEqual_zero _ _, assertEqual_zero _ _⟩
    · simp only [mul_zero]
      exact ⟨assertEqual_zero _ _, assertEqual_zero _ _⟩
    · simp only [mul_zero]
      exact ⟨assertEqual_zero _ _, assertEqual_zero _ _, assertEqual_zero _ _⟩
  · refine ⟨⟨by simp, by simp⟩, ?_, addTwo_shift _ P, ?_, ?_⟩
    · simp only [Bool.toNat_true, Nat.cast_one, sub_self, zero_mul]
      exact ⟨assertEqual_zero _ _, assertEqual_zero _ _⟩
    · simp only [mul_zero]
      exact ⟨assertEqual_zero _ _, assertEqual_zero _ _⟩
    · simp only [mul_zero]
      exact ⟨assertEqual_zero _ _, assertEqual_zero _ _, assertEqual_zero _ _⟩

/-! ## The forged assignment -/

/-- The offset as a point of the curve. -/
def offsetPoint : ecgfp5.OddPoint where
  x := OFFSET_X
  y := OFFSET_Y
  onCurve := by
    unfold DoubleOdd.OnCurve
    decide +kernel
  x_ne := by decide +kernel

/-- The `t`-fold double of the offset. -/
def offsetDouble (t : ℕ) : ecgfp5.OddPoint := DoubleOdd.OddPoint.double^[t] offsetPoint

theorem offsetDouble_succ (t : ℕ) : offsetDouble (t + 1) = (offsetDouble t).double :=
  Function.iterate_succ_apply' _ _ _

/-- The accumulator after `t` steps with the given bits. -/
def forgedAcc (bits : ℕ → Bool) : ℕ → ecgfp5.OddPoint
  | 0 => offsetDouble 0
  | t + 1 => shiftIf (bits t) (offsetDouble (t + 1))

theorem forgedAcc_double (bits : ℕ → Bool) (t : ℕ) :
    (forgedAcc bits t).double = offsetDouble (t + 1) := by
  cases t with
  | zero => rfl
  | succ t => rw [forgedAcc, shiftIf_double, ← offsetDouble_succ]

/-- The gate of the steps `4 g` to `4 g + 3`. -/
def forgedGate (bits : ℕ → Bool) (g : ℕ) : DoubleAdd4xTargets where
  p := orderTwo
  accin := ofOdd (forgedAcc bits (4 * g))
  acco4 := ofOdd (forgedAcc bits (4 * g + 4))
  sp := fun i => ((bits (4 * g + i)).toNat : F)
  sg := fun _ => 0
  lgs := 0
  acco1 := ofOdd (forgedAcc bits (4 * g + 1))
  acco2 := ofOdd (forgedAcc bits (4 * g + 2))
  acco3 := ofOdd (forgedAcc bits (4 * g + 3))
  accdblin := ofOdd (offsetDouble (4 * g + 1))
  accdblo1 := ofOdd (offsetDouble (4 * g + 2))
  accdblo2 := ofOdd (offsetDouble (4 * g + 3))
  accdblo3 := ofOdd (offsetDouble (4 * g + 4))
  lambda1 := 0
  lambda2 := 0
  lambda3 := 0
  lambda4 := 0

theorem forgedAcc_p2Double (s : F) (bits : ℕ → Bool) (t : ℕ) :
    P2DoubleOfP1 s (ofOdd (forgedAcc bits t)) (ofOdd (offsetDouble (t + 1))) := by
  rw [← forgedAcc_double bits t]
  exact p2Double_double s _

theorem forgedGate_satisfied (bits : ℕ → Bool) (g : ℕ) : (forgedGate bits g).Satisfied where
  dblin := forgedAcc_p2Double 1 bits _
  dbl1 := forgedAcc_p2Double 1 bits _
  dbl2 := forgedAcc_p2Double 1 bits _
  lgs_bool := zero_mul _
  dbl3 := forgedAcc_p2Double _ bits _
  keep3 := ⟨assertEqual_zero _ _, assertEqual_zero _ _⟩
  chain1 := chain_shiftIf _ _ _
  chain2 := chain_shiftIf _ _ _
  chain3 := chain_shiftIf _ _ _
  chain4 := chain_shiftIf _ _ _

/-- The compressed form of the last accumulator. -/
def forgedCr : QuinticExtension :=
  (offsetDouble 320).y / (ECGFP5_A_DIV_3 - (offsetDouble 320).x)

variable (perm : State → State) (message : HashOut) (pubkey : PubkeyTarget)

/-- The challenge of the forged signature. -/
def forgedChallenge : Scalar :=
  schnorrChallenge perm forgedCr pubkey.toQuintic (List.ofFn message)

/-- The challenge bits in the order of the steps; the last step adds nothing. -/
def forgedBits (t : ℕ) : Bool :=
  if t < 319 then (forgedChallenge perm message pubkey).toBitArr (318 - t) else false

/-- An assignment of the gadget for any key and message. -/
def forgedTargets : SchnorrTargets where
  q := orderTwo
  cr := forgedCr
  da4x := fun g => forgedGate (forgedBits perm message pubkey) g

theorem compressionGate_orderTwo (w : QuinticExtension) : CompressionGate 1 w orderTwo := by
  refine ⟨?_, ?_⟩
  · rw [orderTwo, sub_self, mul_zero]
  · decide +kernel

theorem compressionGate_ofOdd (P : ecgfp5.OddPoint) :
    CompressionGate 1 (P.y / (ECGFP5_A_DIV_3 - P.x)) (ofOdd P) := by
  have hne : ECGFP5_A_DIV_3 - P.x ≠ 0 := sub_ne_zero.mpr P.x_ne.symm
  refine ⟨div_mul_cancel₀ _ hne, ?_⟩
  have hcurve := P.onCurve
  unfold DoubleOdd.OnCurve at hcurve
  rw [ecgfp5_B] at hcurve
  change P.y ^ 2 = P.x ^ 3 + ECGFP5_CAP_A * P.x + ECGFP5_CAP_B at hcurve
  simp only [ofOdd, map_one]
  linear_combination -hcurve

theorem fromHash_bit_319 (elements : Fin 5 → F) :
    (Scalar.fromHash elements).toBitArr 319 = false := by
  have hlimb := toBitArr_limb (Scalar.fromHash elements) 4 (show 63 < 64 by decide)
  have hval := fromHash_toNat elements 4
  rw [if_pos rfl] at hval
  have hlt : (Scalar.fromHash elements 4).toNat < 2 ^ 63 := by
    rw [hval]
    exact (Nat.mod_lt _ (by decide)).trans (by norm_num)
  exact hlimb.trans (Nat.testBit_lt_two_pow hlt)

theorem forgedTargets_allEBits {n : ℕ} (hn : n < 320) :
    (forgedTargets perm message pubkey).allEBits n =
      (((forgedChallenge perm message pubkey).toBitArr n).toNat : F) := by
  by_cases hlast : n < 319
  · rw [SchnorrTargets.allEBits_of_steps (fun _ _ => rfl) hlast, forgedBits, if_pos (by omega),
      Nat.sub_sub_self (by omega)]
  · obtain rfl : n = 319 := by omega
    rw [forgedChallenge, schnorrChallenge, fromHash_bit_319]
    rfl

theorem forgedTargets_limbs :
    (∀ k : Fin 4, (forgedTargets perm message pubkey).reconstructed k =
      (forgedTargets perm message pubkey).eHash perm message pubkey k.castSucc) ∧
    (forgedTargets perm message pubkey).lastLimbProduct perm message pubkey = 0 :=
  SchnorrTargets.limbs_of_challenge perm message pubkey fun _ hn =>
    forgedTargets_allEBits perm message pubkey hn

/-- The gadget accepts every key and every message. -/
theorem forgedTargets_satisfied (applyCheck : F) :
    (forgedTargets perm message pubkey).Satisfied perm message pubkey applyCheck where
  gates := fun g => forgedGate_satisfied _ g
  chained := fun _ => rfl
  key_point := fun _ => rfl
  start := rfl
  compress_r := compressionGate_ofOdd _
  compress_q := compressionGate_orderTwo _
  limbs := fun k => by
    rw [(forgedTargets_limbs perm message pubkey).1]
    exact condEq_self _ _
  last_limb := by rw [(forgedTargets_limbs perm message pubkey).2, mul_zero]

end Doxa.Circuit
