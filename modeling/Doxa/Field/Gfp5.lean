import Doxa.Field.Goldilocks
import Doxa.Lib.Quintic
import Mathlib.FieldTheory.KummerPolynomial
import Mathlib.NumberTheory.LegendreSymbol.Basic

/-!
# The quintic extension of the Goldilocks field

`QuinticExtension` is `F[z]/(z⁵ - 3)`, the field the curve is defined over. Inverses are
computed from the conjugates and the inverse of the norm in the base field.
-/

namespace Doxa

open Lib Polynomial

/-- `QuinticExtension` and `LocalQuinticExtension`. -/
abbrev QuinticExtension := Quintic F 3

/-- A fifth root of unity, the factor by which the Frobenius map twists `z`. -/
def ZETA : F := 1041288259238279555

theorem zeta_pow_five : ZETA ^ 5 = 1 := rfl

theorem zeta_ne_one : ZETA ≠ 1 := by decide

/-- `3` is no fifth power. -/
theorem three_ne_pow_five (b : F) : b ^ 5 ≠ 3 := by
  intro hb
  have hb0 : b ≠ 0 := by
    rintro rfl
    exact absurd hb (by decide)
  have hfermat : b ^ (18446744069414584321 - 1) = 1 := ZMod.pow_card_sub_one_eq_one hb0
  have hpow : (3 : F) ^ 3689348813882916864 = 1 := by
    rw [← hb, ← pow_mul]
    exact hfermat
  have hne : (3 : F) ^ 3689348813882916864 ≠ 1 := by
    unfold F
    reduce_mod_char
    decide
  exact hne hpow

theorem quintic_irreducible : Irreducible (X ^ 5 - C 3 : F[X]) :=
  X_pow_sub_C_irreducible_of_prime (by decide) three_ne_pow_five

instance : IsDomain QuinticExtension := Quintic.isDomain quintic_irreducible

namespace QuinticExtension

/-- The four conjugates of an element other than itself, multiplied. -/
def conjugates (a : QuinticExtension) : QuinticExtension :=
  let t := Quintic.twist zeta_pow_five a
  let t2 := Quintic.twist zeta_pow_five t
  let t3 := Quintic.twist zeta_pow_five t2
  t * t2 * t3 * Quintic.twist zeta_pow_five t3

theorem mul_conjugates (a : QuinticExtension) :
    a * a.conjugates = Quintic.norm zeta_pow_five a := by
  simp only [conjugates, Quintic.norm]
  ring

theorem mul_conjugates_eq (a : QuinticExtension) :
    a * a.conjugates = Quintic.ofBase (a * a.conjugates).c0 := by
  rw [mul_conjugates]
  exact Quintic.eq_ofBase_of_twist_eq zeta_pow_five zeta_ne_one
    (Quintic.twist_norm zeta_pow_five a)

instance : Inv QuinticExtension :=
  ⟨fun a => a.conjugates * Quintic.ofBase (a * a.conjugates).c0⁻¹⟩

theorem mul_inv_cancel {a : QuinticExtension} (ha : a ≠ 0) : a * a⁻¹ = 1 := by
  have hbase := mul_conjugates_eq a
  have hne : (a * a.conjugates).c0 ≠ 0 := by
    intro hzero
    rw [hzero, map_zero, mul_conjugates] at hbase
    exact Quintic.norm_ne_zero zeta_pow_five ha hbase
  calc a * a⁻¹ = a * a.conjugates * Quintic.ofBase (a * a.conjugates).c0⁻¹ := by
        rw [mul_assoc]
        rfl
    _ = Quintic.ofBase (a * a.conjugates).c0 * Quintic.ofBase (a * a.conjugates).c0⁻¹ := by
        rw [← hbase]
    _ = 1 := by rw [← map_mul, mul_inv_cancel₀ hne, map_one]

instance : Field QuinticExtension where
  exists_pair_ne := ⟨0, 1, zero_ne_one⟩
  mul_inv_cancel _ := mul_inv_cancel
  inv_zero := by
    change conjugates 0 * _ = 0
    have hzero : conjugates 0 = 0 := by simp [conjugates]
    rw [hzero, zero_mul]
  nnqsmul := _
  nnqsmul_def _ _ := rfl
  qsmul := _
  qsmul_def _ _ := rfl

end QuinticExtension

end Doxa
