import Doxa.Circuit.Targets
import Doxa.Curve.Schnorr

/-!
# The Schnorr verification gadget

The constraints of `DoubleAdd4x` and `CompressionGate` and of the gadget that chains eighty
of the former. A selected constraint is multiplied by its selector coordinate by
coordinate, which is multiplication by the selector in the extension.
-/

namespace Doxa.Circuit

open Lib

/-! ## Constants -/

/-- The offset point added to the accumulator at the start of the chain. -/
def OFFSET_X : QuinticExtension :=
  ⟨2626390539619063455, 3069873143820007175, 16481805966921623903, 2169403494164322467,
    15849876939764656634⟩

def OFFSET_Y : QuinticExtension :=
  ⟨8052493994140007067, 12476750341447220703, 7297584762312352412, 4456043296886321460,
    17416054515469523789⟩

/-- `-2^319` times the offset point. -/
def OFFSET_NEG_319_X : QuinticExtension :=
  ⟨4290739547668160462, 4414444320864360104, 13341412719882091143, 6277196213122332219,
    5576063673169056362⟩

def OFFSET_NEG_319_Y : QuinticExtension :=
  ⟨31345035390588453, 16142908491486898889, 1937863704661416826, 5598663702127262288,
    17388813215359868465⟩

/-! ## Point constraints -/

@[ext] structure LocalPointEw where
  x : QuinticExtension
  y : QuinticExtension
  deriving DecidableEq

/-- `assert_equal` with every coordinate multiplied by the selector. -/
def AssertEqual (s : F) (x y : QuinticExtension) : Prop := Quintic.ofBase s * (x - y) = 0

theorem assertEqual_of_eq {s : F} {x y : QuinticExtension} (h : x = y) : AssertEqual s x y := by
  rw [AssertEqual, h, sub_self, mul_zero]

theorem assertEqual_zero (x y : QuinticExtension) : AssertEqual 0 x y := by
  rw [AssertEqual, map_zero, zero_mul]

theorem assertEqual_one {x y : QuinticExtension} : AssertEqual 1 x y ↔ x = y := by
  rw [AssertEqual, map_one, one_mul, sub_eq_zero]

/-- `po = p1 + p2`. -/
def AddTwoPoints (s : F) (p1 p2 po : LocalPointEw) : Prop :=
  AssertEqual s ((po.x + p1.x + p2.x) * (p2.x - p1.x) ^ 2) ((p2.y - p1.y) ^ 2) ∧
  AssertEqual s ((po.y + p1.y) * (p2.x - p1.x)) ((p2.y - p1.y) * (p1.x - po.x))

/-- The sum of the first two points when `lambda` is their slope. -/
def slopeSum (p1 p2 : LocalPointEw) (lambda : QuinticExtension) : LocalPointEw :=
  let xi := lambda ^ 2 - p1.x - p2.x
  { x := xi, y := lambda * (p1.x - xi) - p1.y }

/-- `po = p1 + p2 + p3`. -/
def AddThreePoints (s : F) (p1 p2 p3 : LocalPointEw) (lambda : QuinticExtension)
    (po : LocalPointEw) : Prop :=
  let pi := slopeSum p1 p2 lambda
  AssertEqual s (lambda * (p2.x - p1.x)) (p2.y - p1.y) ∧
  AssertEqual s ((po.x + pi.x + p3.x) * (pi.x - p3.x) ^ 2) ((pi.y - p3.y) ^ 2) ∧
  AssertEqual s ((po.y + p3.y) * (pi.x - p3.x)) ((pi.y - p3.y) * (p3.x - po.x))

/-- `acco = acci + b0 p1 + b1 p2`. -/
def DoubleAccChain (acci p1 p2 acco : LocalPointEw) (lambda : QuinticExtension) (b0 b1 : F) :
    Prop :=
  ((1 - b0) * b0 = 0 ∧ (1 - b1) * b1 = 0) ∧
  (AssertEqual ((1 - b0) * (1 - b1)) acci.x acco.x ∧
    AssertEqual ((1 - b0) * (1 - b1)) acci.y acco.y) ∧
  AddTwoPoints (b0 * (1 - b1)) acci p1 acco ∧
  AddTwoPoints ((1 - b0) * b1) acci p2 acco ∧
  AddThreePoints (b0 * b1) acci p1 p2 lambda acco

/-- `p2 = 2 p1`. -/
def P2DoubleOfP1 (s : F) (p1 p2 : LocalPointEw) : Prop :=
  let num := p1.x ^ 2 * 3 + ECGFP5_CAP_A
  let denom := p1.y * 2
  AssertEqual s ((p2.x + p1.x + p1.x) * denom ^ 2) (num ^ 2) ∧
  AssertEqual s ((p2.y + p1.y) * (denom ^ 2 * denom))
    (p1.x * num * denom ^ 2 * 3 - num ^ 2 * num)

/-! ## Gates -/

structure DoubleAdd4xTargets where
  p : LocalPointEw
  accin : LocalPointEw
  acco4 : LocalPointEw
  sp : Fin 4 → F
  sg : Fin 4 → F
  lgs : F
  acco1 : LocalPointEw
  acco2 : LocalPointEw
  acco3 : LocalPointEw
  accdblin : LocalPointEw
  accdblo1 : LocalPointEw
  accdblo2 : LocalPointEw
  accdblo3 : LocalPointEw
  lambda1 : QuinticExtension
  lambda2 : QuinticExtension
  lambda3 : QuinticExtension
  lambda4 : QuinticExtension

def generatorPoint : LocalPointEw := ⟨GENERATOR_X, GENERATOR_Y⟩

def offsetNeg319 : LocalPointEw := ⟨OFFSET_NEG_319_X, OFFSET_NEG_319_Y⟩

def offset : LocalPointEw := ⟨OFFSET_X, OFFSET_Y⟩

/-- The second point of the last addition: the generator, or the negated offset in the gate
selected by `lgs`. -/
def lastPoint (lgs : F) : LocalPointEw where
  x := Quintic.ofBase (1 - lgs) * GENERATOR_X + Quintic.ofBase lgs * OFFSET_NEG_319_X
  y := Quintic.ofBase (1 - lgs) * GENERATOR_Y + Quintic.ofBase lgs * OFFSET_NEG_319_Y

/-- The constraints of the gate `DoubleAdd4x`. -/
structure DoubleAdd4xTargets.Satisfied (t : DoubleAdd4xTargets) : Prop where
  dblin : P2DoubleOfP1 1 t.accin t.accdblin
  dbl1 : P2DoubleOfP1 1 t.acco1 t.accdblo1
  dbl2 : P2DoubleOfP1 1 t.acco2 t.accdblo2
  lgs_bool : t.lgs * (1 - t.lgs) = 0
  dbl3 : P2DoubleOfP1 (1 - t.lgs) t.acco3 t.accdblo3
  keep3 : AssertEqual t.lgs t.acco3.x t.accdblo3.x ∧ AssertEqual t.lgs t.acco3.y t.accdblo3.y
  chain1 : DoubleAccChain t.accdblin t.p generatorPoint t.acco1 t.lambda1 (t.sp 0) (t.sg 0)
  chain2 : DoubleAccChain t.accdblo1 t.p generatorPoint t.acco2 t.lambda2 (t.sp 1) (t.sg 1)
  chain3 : DoubleAccChain t.accdblo2 t.p generatorPoint t.acco3 t.lambda3 (t.sp 2) (t.sg 2)
  chain4 : DoubleAccChain t.accdblo3 t.p (lastPoint t.lgs) t.acco4 t.lambda4 (t.sp 3) (t.sg 3)

/-- One operation of `CompressionGate`. -/
def CompressionGate (isactive : F) (w : QuinticExtension) (p : LocalPointEw) : Prop :=
  w * (ECGFP5_A_DIV_3 - p.x) = p.y ∧
  p.x ^ 2 * p.x + (ECGFP5_CAP_A * p.x + ECGFP5_CAP_B) * Quintic.ofBase isactive = p.y ^ 2

/-! ## The gadget -/

/-- The key point, the compressed `R` and the eighty gates. -/
structure SchnorrTargets where
  q : LocalPointEw
  cr : QuinticExtension
  da4x : Fin 80 → DoubleAdd4xTargets

/-- The extension element on the five wires of a key. -/
def PubkeyTarget.toQuintic (pk : PubkeyTarget) : QuinticExtension :=
  ⟨pk 0, pk 1, pk 2, pk 3, pk 4⟩

namespace SchnorrTargets

variable (t : SchnorrTargets)

/-- The final accumulator. -/
def r : LocalPointEw := (t.da4x 79).acco4

/-- The challenge bits, the least significant one first: bit `n` is the `sp` wire of step
`318 - n`, and the last one is the constant zero. -/
def allEBits (n : ℕ) : F :=
  if n < 319 then
    let i := n + 1
    (t.da4x (Fin.ofNat 80 (79 - i / 4))).sp (Fin.ofNat 4 (3 - i % 4))
  else 0

/-- `le_sum` of the 32 bits from `start` on. -/
def leSum32 (start : ℕ) : F := ∑ i ∈ Finset.range 32, t.allEBits (start + i) * 2 ^ i

/-- The limb rebuilt from its 64 bits. -/
def reconstructed (k : ℕ) : F := 2 ^ 32 * t.leSum32 (64 * k + 32) + t.leSum32 (64 * k)

variable (perm : State → State) (message : HashOut) (pubkey : PubkeyTarget)

def eHash : Fin 5 → F :=
  hashNoPad5 perm (coeffs t.cr ++ coeffs pubkey.toQuintic ++ List.ofFn message)

/-- The product of the four differences the last limb may have. -/
def lastLimbProduct : F :=
  let diff := t.eHash perm message pubkey 4 - t.reconstructed 4
  diff * (diff - 2 ^ 62) * ((diff - 2 ^ 63) * (diff - 3 * 2 ^ 62))

/-- The constraints of `conditional_schnorr_verify_gadget`. -/
structure Satisfied (applyCheck : F) : Prop where
  gates : ∀ i, (t.da4x i).Satisfied
  chained : ∀ i : Fin 79, (t.da4x i.castSucc).acco4 = (t.da4x i.succ).accin
  key_point : ∀ i, (t.da4x i).p = t.q
  start : (t.da4x 0).accin = offset
  compress_r : CompressionGate 1 t.cr t.r
  compress_q : CompressionGate 1 pubkey.toQuintic t.q
  limbs : ∀ k : Fin 4, CondEq applyCheck (t.reconstructed k) (t.eHash perm message pubkey k.castSucc)
  last_limb : applyCheck * t.lastLimbProduct perm message pubkey = 0

/-! ## Challenge limbs -/

theorem lastLimbProduct_eq_zero_iff : t.lastLimbProduct perm message pubkey = 0 ↔
    t.eHash perm message pubkey 4 - t.reconstructed 4 = 0 ∨
    t.eHash perm message pubkey 4 - t.reconstructed 4 = 2 ^ 62 ∨
    t.eHash perm message pubkey 4 - t.reconstructed 4 = 2 ^ 63 ∨
    t.eHash perm message pubkey 4 - t.reconstructed 4 = 3 * 2 ^ 62 := by
  unfold lastLimbProduct
  rw [mul_eq_zero, mul_eq_zero, mul_eq_zero, or_assoc, sub_eq_zero (b := 2 ^ 62),
    sub_eq_zero (b := 2 ^ 63), sub_eq_zero (b := 3 * 2 ^ 62)]

/-- An element exceeds its lower 62 bits by a multiple of `2^62` below `2^64`. -/
theorem lastLimb_cases (a : F) : a - ((a.val % 2 ^ 62 : ℕ) : F) = 0 ∨
    a - ((a.val % 2 ^ 62 : ℕ) : F) = 2 ^ 62 ∨ a - ((a.val % 2 ^ 62 : ℕ) : F) = 2 ^ 63 ∨
    a - ((a.val % 2 ^ 62 : ℕ) : F) = 3 * 2 ^ 62 := by
  have hlt : a.val / 2 ^ 62 < 4 := by
    have := ZMod.val_lt a
    omega
  have hdiff : a - ((a.val % 2 ^ 62 : ℕ) : F) = ((2 ^ 62 * (a.val / 2 ^ 62) : ℕ) : F) := by
    rw [sub_eq_iff_eq_add, ← Nat.cast_add, Nat.div_add_mod, ZMod.natCast_zmod_val]
  rw [hdiff]
  generalize a.val / 2 ^ 62 = q at hlt
  interval_cases q
  · exact .inl (by norm_num)
  · exact .inr (.inl (by norm_num))
  · exact .inr (.inr (.inl (by norm_num)))
  · exact .inr (.inr (.inr (by norm_num)))

variable {t}

/-- The challenge bits are the `sp` wires in the reverse order of the steps. -/
theorem allEBits_of_steps {bits : ℕ → Bool}
    (h : ∀ (g : Fin 80) (i : Fin 4), (t.da4x g).sp i = ((bits (4 * g + i)).toNat : F)) {n : ℕ}
    (hn : n < 319) : t.allEBits n = ((bits (318 - n)).toNat : F) := by
  unfold allEBits
  rw [if_pos hn]
  simp only
  rw [h]
  congr 3
  simp only [Fin.val_ofNat]
  omega

theorem leSum32_eq {bits : ℕ → Bool} (h : ∀ n < 320, t.allEBits n = ((bits n).toNat : F))
    {start : ℕ} (hstart : start + 32 ≤ 320) :
    t.leSum32 start = (bitsVal (fun j => bits (start + j)) 32 : ℕ) := by
  rw [leSum32, bitsVal_eq_sum, Nat.cast_sum]
  refine Finset.sum_congr rfl fun i hi => ?_
  have hi' : i < 32 := Finset.mem_range.mp hi
  rw [h (start + i) (by omega), Nat.cast_mul, Nat.cast_pow, Nat.cast_ofNat]

/-- A rebuilt limb is the integer of its 64 bits. -/
theorem reconstructed_eq {bits : ℕ → Bool} (h : ∀ n < 320, t.allEBits n = ((bits n).toNat : F))
    {k : ℕ} (hk : k < 5) :
    t.reconstructed k = (bitsVal (fun j => bits (64 * k + j)) 64 : ℕ) := by
  have hsplit := bitsVal_add (fun j => bits (64 * k + j)) 32 32
  rw [reconstructed, leSum32_eq h (by omega), leSum32_eq h (by omega),
    show (64 : ℕ) = 32 + 32 from rfl, hsplit]
  push_cast
  simp only [Nat.add_assoc]
  ring

/-- Wires that spell the challenge satisfy the comparison with the hash. -/
theorem limbs_of_challenge (h : ∀ n < 320, t.allEBits n =
      (((schnorrChallenge perm t.cr pubkey.toQuintic (List.ofFn message)).toBitArr n).toNat : F)) :
    (∀ k : Fin 4, t.reconstructed k = t.eHash perm message pubkey k.castSucc) ∧
      t.lastLimbProduct perm message pubkey = 0 := by
  have hhash : schnorrChallenge perm t.cr pubkey.toQuintic (List.ofFn message) =
      Scalar.fromHash (t.eHash perm message pubkey) := rfl
  rw [hhash] at h
  have hlimb (k : Fin 5) : t.reconstructed k =
      ((Scalar.fromHash (t.eHash perm message pubkey) k).toNat : F) := by
    rw [reconstructed_eq h k.isLt, limb_val]
  constructor
  · intro k
    have hne : k.castSucc ≠ 4 := (Fin.castSucc_lt_last k).ne
    have hk := hlimb k.castSucc
    rw [fromHash_toNat, if_neg hne, ZMod.natCast_zmod_val] at hk
    exact hk
  · have hk : t.reconstructed 4 = _ := hlimb 4
    rw [fromHash_toNat, if_pos rfl] at hk
    rw [lastLimbProduct_eq_zero_iff, hk]
    exact lastLimb_cases _

end SchnorrTargets

end Doxa.Circuit
