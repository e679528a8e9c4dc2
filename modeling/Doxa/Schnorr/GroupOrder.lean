import Doxa.Circuit.Offset
import Doxa.Lib.JacobianLadder
import Doxa.Lib.Primality
import Doxa.Schnorr.Scalar
import Mathlib.Tactic.NormNum.Prime
import Mathlib.Tactic.ReduceModChar

/-!
# The order of the generator

The modulus `N` of the scalars is prime, by a chain of Pocklington certificates with base `2`,
and the generator has this order: `(N - 1) G = -G`, evaluated in Jacobian coordinates.
-/

namespace Doxa

open Lib Circuit WeierstrassCurve.Affine

/-! ## Primality -/

theorem prime_684681902741 : Nat.Prime 684681902741 := by
  have hfactor : Nat.Prime 1339729 := by norm_num
  refine pocklington (F := 1339729) (by norm_num) (by norm_num) (by norm_num) fun q hq hdvd => ?_
  obtain rfl := (Nat.prime_dvd_prime_iff_eq hq hfactor).mp hdvd
  refine ⟨2, 155519267017, ?_, ?_⟩
  · norm_num
    reduce_mod_char
  · norm_num
    reduce_mod_char

theorem prime_295669217107717914048023 : Nat.Prime 295669217107717914048023 := by
  refine pocklington (F := 684681902741) (by norm_num) (by norm_num) (by norm_num)
    fun q hq hdvd => ?_
  obtain rfl := (Nat.prime_dvd_prime_iff_eq hq prime_684681902741).mp hdvd
  refine ⟨2, 295211017268550808865236, ?_, ?_⟩
  · norm_num
    reduce_mod_char
  · norm_num
    reduce_mod_char

/-- The largest prime factor of `N - 1`. -/
theorem prime_factor :
    Nat.Prime 198400523053184002814403536918162724916343842520561 := by
  have hsmall : Nat.Prime 113 := by norm_num
  refine pocklington (F := 295669217107717914048023 * 113) (by norm_num) (by norm_num)
    (by norm_num) fun q hq hdvd => ?_
  rcases (Nat.Prime.dvd_mul hq).mp hdvd with hdvd | hdvd
  · obtain rfl := (Nat.prime_dvd_prime_iff_eq hq prime_295669217107717914048023).mp hdvd
    refine ⟨2, 186781939957430049954169739848408272667876703179484, ?_, ?_⟩
    · norm_num
      reduce_mod_char
    · norm_num
      reduce_mod_char
  · obtain rfl := (Nat.prime_dvd_prime_iff_eq hq hsmall).mp hdvd
    refine ⟨2, 189872310946160657573982931900524632949151169525985, ?_, ?_⟩
    · norm_num
      reduce_mod_char
    · norm_num
      reduce_mod_char

/-- The group order is prime. -/
theorem N_prime : Nat.Prime Scalar.N.toNat := by
  rw [Scalar.N_toNat]
  refine pocklington (F := 198400523053184002814403536918162724916343842520561) (by norm_num)
    (by norm_num) (by norm_num) fun q hq hdvd => ?_
  obtain rfl := (Nat.prime_dvd_prime_iff_eq hq prime_factor).mp hdvd
  refine ⟨2, 369408561163069379824554897178806257256332854141897099653688656234370020592662382103130938452952, ?_, ?_⟩
  · norm_num
    reduce_mod_char
  · norm_num
    reduce_mod_char

/-! ## The multiple of the generator -/

/-- `N - 1`. -/
def orderPred : ℕ :=
  1067993516717146951041484916571792702745057740581727230159139685185762082554198619328292418486240

namespace Circuit.Residues

theorem toJacobian_ladder (A x y : Residues) (bits : ℕ → Bool) (i : ℕ)
    (j : DoubleOdd.Jacobian Residues) : toJacobian (j.ladder A x y bits i) =
      (toJacobian j).ladder A.toField x.toField y.toField bits i := by
  induction i generalizing j with
  | zero => rfl
  | succ i ih =>
    have hstep : toJacobian (j.ladderStep A x y (bits i)) =
        (toJacobian j).ladderStep A.toField x.toField y.toField (bits i) := by
      unfold DoubleOdd.Jacobian.ladderStep
      rw [← toJacobian_double]
      split
      · simp only [toJacobian, DoubleOdd.Jacobian.addMixed, toField_add, toField_sub, toField_mul]
      · rfl
    rw [DoubleOdd.Jacobian.ladder, ih, hstep]
    rfl

/-- The residues of the generator. -/
def generator : DoubleOdd.Jacobian Residues where
  X := ofField GENERATOR_X
  Y := ofField GENERATOR_Y
  Z := ofField 1

/-- `N - 1` times the generator. -/
def orderMultiple : DoubleOdd.Jacobian Residues :=
  generator.ladder (ofField ECGFP5_CAP_A) (ofField GENERATOR_X) (ofField GENERATOR_Y)
    orderPred.testBit 318

theorem orderMultiple_eq :
    orderMultiple.Z.c0 % ORDER ≠ 0 ∧
      orderMultiple.X = ofField GENERATOR_X * (orderMultiple.Z * orderMultiple.Z) ∧
      orderMultiple.Y =
        ofField (-GENERATOR_Y) * (orderMultiple.Z * orderMultiple.Z * orderMultiple.Z) := by
  decide +kernel

theorem toJacobian_generator :
    toJacobian generator = ⟨GENERATOR_X, GENERATOR_Y, 1⟩ := by
  simp only [toJacobian, generator, toField_ofField]

end Circuit.Residues

/-- A run of doublings and additions that ends with a third coordinate other than zero. -/
theorem represents_doubleAndAdd {j : DoubleOdd.Jacobian QuinticExtension} {P : PointEw}
    {x y : QuinticExtension} (hP : j.Represents ecgfp5 P) (hQ : ecgfp5.OnCurve x y)
    {bits : ℕ → Bool} {i : ℕ} (hz : (j.ladder ecgfp5.A x y bits i).Z ≠ 0) :
    (j.ladder ecgfp5.A x y bits i).Represents ecgfp5 (doubleAndAdd hQ.point bits i P) := by
  induction i generalizing j P with
  | zero => exact hP
  | succ i ih => exact ih (hP.ladderStep hQ (DoubleOdd.Jacobian.ladder_Z hz)) hz

theorem generator_represents :
    (⟨GENERATOR_X, GENERATOR_Y, 1⟩ : DoubleOdd.Jacobian QuinticExtension).Represents ecgfp5
      generator where
  Z_ne := one_ne_zero
  point := by
    refine ⟨GENERATOR_X, GENERATOR_Y, generator_onCurve, ?_, ?_, rfl⟩
    · rw [one_pow, mul_one]
    · rw [one_pow, mul_one]

theorem toField_ne_zero {a : Residues} (h : a.c0 % ORDER ≠ 0) : a.toField ≠ 0 := by
  intro hzero
  have hcast : ((a.c0 : ℕ) : F) = 0 := congrArg Quintic.c0 hzero
  exact h (Nat.mod_eq_zero_of_dvd ((ZMod.natCast_eq_zero_iff _ _).mp hcast))

/-- The evaluated multiple is `-G`. -/
theorem orderMultiple_represents :
    (Residues.toJacobian Residues.orderMultiple).Represents ecgfp5 (-generator) := by
  obtain ⟨hZ, hX, hY⟩ := Residues.orderMultiple_eq
  refine ⟨toField_ne_zero hZ, GENERATOR_X, -GENERATOR_Y, generator_onCurve.neg, ?_, ?_,
    generator_onCurve.neg_point.symm⟩
  · refine (congrArg Residues.toField hX).trans ?_
    rw [Residues.toField_mul, Residues.toField_mul, Residues.toField_ofField, ← pow_two]
    rfl
  · refine (congrArg Residues.toField hY).trans ?_
    rw [Residues.toField_mul, Residues.toField_mul, Residues.toField_mul,
      Residues.toField_ofField, ← pow_three']
    rfl

theorem orderPred_bits : 2 ^ 318 + bitsVal orderPred.testBit 318 = orderPred := by
  have hpow : (2 : ℕ) ^ 318 = 2 ^ 159 * 2 ^ 159 := (pow_add 2 159 159)
  rw [bitsVal_testBit, hpow, orderPred]
  norm_num

theorem orderPred_nsmul : orderPred • generator = -generator := by
  have hladder : Residues.toJacobian Residues.orderMultiple =
      (⟨GENERATOR_X, GENERATOR_Y, 1⟩ : DoubleOdd.Jacobian QuinticExtension).ladder ECGFP5_CAP_A
        GENERATOR_X GENERATOR_Y orderPred.testBit 318 := by
    rw [Residues.orderMultiple, Residues.toJacobian_ladder, Residues.toJacobian_generator,
      Residues.toField_ofField, Residues.toField_ofField, Residues.toField_ofField]
  have hneg := orderMultiple_represents
  rw [hladder] at hneg
  have hrun := represents_doubleAndAdd generator_represents generator_onCurve hneg.Z_ne
  have hmul : doubleAndAdd generator orderPred.testBit 318 generator = orderPred • generator := by
    rw [doubleAndAdd_eq, ← add_nsmul, orderPred_bits]
  rw [← hmul]
  exact hrun.unique hneg

theorem N_nsmul : Scalar.N.toNat • generator = 0 := by
  have hsucc : Scalar.N.toNat = orderPred + 1 := Scalar.N_toNat
  rw [hsucc, succ_nsmul, orderPred_nsmul, neg_add_cancel]

theorem generator_ne_zero : generator ≠ 0 := Point.some_ne_zero _

/-- The generator has prime order `N`. -/
theorem addOrderOf_generator : addOrderOf generator = Scalar.N.toNat := by
  have : Fact (Nat.Prime Scalar.N.toNat) := ⟨N_prime⟩
  exact addOrderOf_eq_prime N_nsmul generator_ne_zero

end Doxa
