import Doxa.Circuit.Soundness

/-!
# Square roots and Legendre symbols with their panics

`QuinticExtension::sqrt` divides by a power of its argument, and `inverse` panics at zero;
`legendre` asserts that a norm lies in the base field. Here both come with these panics, as
`none`. The assertion never fails. The division fails exactly at zero, a square whose root the
base field does find.
-/

namespace Doxa

open Lib Circuit

namespace QuinticExtension

/-- `inverse`, which expects `try_inverse` to succeed. -/
def inverse (x : QuinticExtension) : Option QuinticExtension := if x = 0 then none else some x⁻¹

/-- `sqrt`; the outer `none` is a panic. -/
def trySqrt (S : BaseSqrt) (x : QuinticExtension) : Option (Option QuinticExtension) :=
  let t := x.halfPower
  let y := x * (t * t)
  match S.sqrt y.c0 with
  | none => some none
  | some sqrta => t.inverse.map fun t => some (t * Quintic.ofBase sqrta)

/-- `legendre`, with its assertion on the upper coefficients. -/
def tryLegendre (x : QuinticExtension) : Option LegendreSymbol :=
  let x0 := frobenius x
  let x1 := frobenius x0
  let x2 := x0 * x1
  let x3 := frobenius (frobenius x2)
  let x4 := x2 * x3
  let x := x * x4
  if x.c1.val ||| x.c2.val ||| x.c3.val ||| x.c4.val = 0 then some (legendreBase x.c0) else none

theorem legendreBase_eq_zero_iff (x : F) : legendreBase x = .zero ↔ x = 0 := by
  have hval : legendreBase x = .zero ↔ repeatedSquare (allOnes32 x) 31 = 0 := by
    rw [← ZMod.val_eq_zero, legendreBase, LegendreSymbol.fromNat]
    split
    · case isTrue h => simp [h]
    · case isFalse h => split <;> simp [h]
  rw [hval, repeatedSquare_eq, allOnes32_eq, ← pow_mul, pow_eq_zero_iff (by norm_num)]

/-- The argument times what `legendre` multiplies it with. -/
theorem mul_legendreFactors (x : QuinticExtension) : x * (frobenius x * frobenius (frobenius x) *
    frobenius (frobenius (frobenius x * frobenius (frobenius x)))) =
      Quintic.norm zeta_pow_five x := by
  simp only [frobenius, Quintic.norm, map_mul]
  ring

theorem norm_c0_eq_zero_iff (x : QuinticExtension) :
    (Quintic.norm zeta_pow_five x).c0 = 0 ↔ x = 0 := by
  constructor
  · intro hzero
    by_contra hx
    have hnorm := norm_eq_ofBase x
    rw [hzero, map_zero] at hnorm
    exact Quintic.norm_ne_zero zeta_pow_five hx hnorm
  · rintro rfl
    have hzero : Quintic.norm zeta_pow_five (0 : QuinticExtension) = 0 := by simp [Quintic.norm]
    rw [hzero]
    rfl

/-- The assertion of `legendre` holds. -/
theorem tryLegendre_eq (x : QuinticExtension) : x.tryLegendre = some x.legendre := by
  have hupper : (Quintic.norm zeta_pow_five x).c1 = 0 ∧ (Quintic.norm zeta_pow_five x).c2 = 0 ∧
      (Quintic.norm zeta_pow_five x).c3 = 0 ∧ (Quintic.norm zeta_pow_five x).c4 = 0 := by
    rw [norm_eq_ofBase x]
    exact ⟨rfl, rfl, rfl, rfl⟩
  obtain ⟨h1, h2, h3, h4⟩ := hupper
  unfold tryLegendre legendre
  dsimp only
  rw [mul_legendreFactors, h1, h2, h3, h4]
  exact if_pos rfl

theorem legendre_eq_zero_iff (x : QuinticExtension) : x.legendre = .zero ↔ x = 0 := by
  have hbase : x.legendre = legendreBase (Quintic.norm zeta_pow_five x).c0 := by
    rw [← mul_legendreFactors]
    rfl
  rw [hbase, legendreBase_eq_zero_iff, norm_c0_eq_zero_iff]

theorem legendre_eq_negone_iff (x : QuinticExtension) : x.legendre = .negone ↔ ¬ IsSquare x := by
  have hzero := legendre_eq_zero_iff x
  have hone := legendre_eq_one_iff x
  constructor
  · intro h hsq
    by_cases hx : x = 0
    · rw [hzero.mpr hx] at h
      cases h
    · rw [hone.mpr ⟨hx, hsq⟩] at h
      cases h
  · intro hns
    cases hl : x.legendre with
    | zero => exact absurd (hzero.mp hl ▸ IsSquare.zero) hns
    | one => exact absurd (hone.mp hl).2 hns
    | negone => rfl

variable (S : BaseSqrt)

/-- Away from zero nothing panics. -/
theorem trySqrt_of_ne_zero {x : QuinticExtension} (hx : x ≠ 0) :
    x.trySqrt S = some (x.sqrt S) := by
  have hne : x.halfPower ≠ 0 := by
    intro hzero
    have hmul := mul_halfPower_sq x
    rw [hzero, mul_zero, mul_zero] at hmul
    exact Quintic.norm_ne_zero zeta_pow_five hx hmul.symm
  unfold trySqrt sqrt inverse
  dsimp only
  rw [if_neg hne]
  cases S.sqrt (x * (x.halfPower * x.halfPower)).c0 with
  | none => rfl
  | some sqrta => rfl

theorem halfPower_zero : (0 : QuinticExtension).halfPower = 0 := by
  unfold halfPower
  dsimp only
  rw [mul_zero, zero_mul]
  exact map_zero (Quintic.twist zeta_pow_five)

/-- The square root of zero divides by zero. -/
theorem trySqrt_zero : (0 : QuinticExtension).trySqrt S = none := by
  have hroot : S.sqrt 0 ≠ none := fun h => S.not_isSquare_of_none h IsSquare.zero
  unfold trySqrt inverse
  dsimp only
  rw [halfPower_zero, zero_mul, if_pos rfl]
  cases hs : S.sqrt (0 : QuinticExtension).c0 with
  | none => exact absurd hs hroot
  | some sqrta => rfl

end QuinticExtension

/-- What the square root and the Legendre symbol are for: both are computed without a panic, a
root is found exactly for the squares, and the symbol tells zero, squares and non-squares apart. -/
structure RootsComputed (S : BaseSqrt) (x : QuinticExtension) : Prop where
  sqrt : ∃ root, x.trySqrt S = some root ∧ (∀ r, root = some r → r * r = x) ∧
    (root = none ↔ ¬ IsSquare x)
  legendre : ∃ symbol, x.tryLegendre = some symbol ∧ (symbol = .zero ↔ x = 0) ∧
    (symbol = .one ↔ x ≠ 0 ∧ IsSquare x) ∧ (symbol = .negone ↔ ¬ IsSquare x)

/-- They are, except at zero: there the square root divides by zero. -/
theorem roots_computed_iff (S : BaseSqrt) (x : QuinticExtension) :
    RootsComputed S x ↔ x ≠ 0 := by
  constructor
  · rintro h rfl
    obtain ⟨root, hroot, -⟩ := h.sqrt
    rw [QuinticExtension.trySqrt_zero] at hroot
    cases hroot
  · intro hx
    refine ⟨⟨x.sqrt S, QuinticExtension.trySqrt_of_ne_zero S hx,
      fun r => QuinticExtension.mul_self_of_sqrt S hx, ?_⟩, ⟨x.legendre,
      QuinticExtension.tryLegendre_eq x, QuinticExtension.legendre_eq_zero_iff x,
      QuinticExtension.legendre_eq_one_iff x, QuinticExtension.legendre_eq_negone_iff x⟩⟩
    constructor
    · exact QuinticExtension.not_isSquare_of_sqrt S hx
    · intro hns
      cases hroot : x.sqrt S with
      | none => rfl
      | some r => exact absurd ⟨r, (QuinticExtension.mul_self_of_sqrt S hx hroot).symm⟩ hns

/-- Zero is a square, and its square root panics. -/
theorem root_of_zero_panics : ¬ RootsComputed someBaseSqrt 0 ∧ IsSquare (0 : QuinticExtension) ∧
    (0 : QuinticExtension).trySqrt someBaseSqrt = none := by
  refine ⟨fun h => ?_, IsSquare.zero, QuinticExtension.trySqrt_zero someBaseSqrt⟩
  obtain ⟨root, hroot, -⟩ := h.sqrt
  rw [QuinticExtension.trySqrt_zero] at hroot
  cases hroot

end Doxa
