import Doxa.Circuit.Soundness

/-!
# The points a compression gate accepts

The two equations of an active `CompressionGate` have up to three solutions for a word: the
point of order two, for which both sides of the compression equation are zero, and one point
for each root of the quadratic that `decode` solves. `decode` takes the square root among
these two, and the gate does not.
-/

namespace Doxa.Circuit

open Lib

variable {w : QuinticExtension} {p : LocalPointEw}

/-- The equations of the gate over `u = x - a/3`. -/
theorem compressionGate_iff : CompressionGate 1 w p ↔ p = orderTwo ∨
    (p.y = -w * (p.x - ECGFP5_A_DIV_3) ∧ (p.x - ECGFP5_A_DIV_3) ^ 2 -
      (w ^ 2 - ECGFP5_A) * (p.x - ECGFP5_A_DIV_3) + ECGFP5_B = 0) := by
  constructor
  · intro h
    have hcurve := SchnorrTargets.compressionGate_onCurve h
    by_cases hx : p.x - ECGFP5_A_DIV_3 = 0
    · left
      have hx' := sub_eq_zero.mp hx
      have hy := h.1
      rw [hx', sub_self, mul_zero] at hy
      exact LocalPointEw.ext hx' hy.symm
    · right
      refine ⟨?_, compressed_quadratic hcurve h.1 hx⟩
      linear_combination -h.1
  · rintro (rfl | ⟨hy, hquad⟩)
    · exact compressionGate_orderTwo w
    · refine ⟨by rw [hy]; ring, ?_⟩
      have hcurve : ecgfp5.OnCurve p.x p.y := by
        refine DoubleOdd.onCurve_of_factor ?_
        show p.y ^ 2 = (p.x - ECGFP5_A_DIV_3) * ((p.x - ECGFP5_A_DIV_3) ^ 2 +
          3 * ECGFP5_A_DIV_3 * (p.x - ECGFP5_A_DIV_3) + ecgfp5.b)
        rw [three_mul_adiv3, ecgfp5_b, hy]
        linear_combination -(p.x - ECGFP5_A_DIV_3) * hquad
      unfold DoubleOdd.OnCurve at hcurve
      rw [ecgfp5_B] at hcurve
      change p.y ^ 2 = p.x ^ 3 + ECGFP5_CAP_A * p.x + ECGFP5_CAP_B at hcurve
      rw [map_one, mul_one]
      linear_combination -hcurve

/-- A root of the quadratic makes the word decodable. -/
theorem decode_isSome (S : BaseSqrt) {u : QuinticExtension} (hw : w ≠ 0)
    (hu : u ^ 2 - (w ^ 2 - ECGFP5_A) * u + ECGFP5_B = 0) :
    ∃ (x y : QuinticExtension) (h : ecgfp5.OnCurve x y), decode S w = some h.point := by
  have hdelta : IsSquare ((w ^ 2 - ECGFP5_A) ^ 2 - ECGFP5_4BZ) := by
    refine ⟨2 * u - (w ^ 2 - ECGFP5_A), ?_⟩
    rw [fourBZ_eq]
    linear_combination -4 * hu
  unfold decode
  rw [if_neg hw]
  split
  · case h_1 hnone =>
      exact absurd hdelta (QuinticExtension.not_isSquare_of_sqrt S (delta_ne_zero _) hnone)
  · case h_2 r hr =>
      exact ⟨_, _, decode_onCurve (QuinticExtension.mul_self_of_sqrt S (delta_ne_zero _) hr), rfl⟩

/-- The word zero leaves the quadratic without a root. -/
theorem ne_zero_of_quadratic {u : QuinticExtension}
    (hu : u ^ 2 - (w ^ 2 - ECGFP5_A) * u + ECGFP5_B = 0) : w ≠ 0 := by
  rintro rfl
  have hdisc : ECGFP5_DISC = ECGFP5_A ^ 2 - 4 * ECGFP5_B := rfl
  refine disc_not_isSquare ⟨2 * u + ECGFP5_A, ?_⟩
  rw [hdisc]
  linear_combination -4 * hu

/-- An accepted point is the decoded one exactly when its `u` is a nonzero square; for a word
that decodes to no finite point the gate accepts the point of order two and nothing else. -/
theorem compressionGate_decode_iff (S : BaseSqrt) (h : CompressionGate 1 w p) :
    ((∃ hp : p.OnCurve, decode S w = some hp.toPoint) ↔
      p.x ≠ ECGFP5_A_DIV_3 ∧ IsSquare (p.x - ECGFP5_A_DIV_3)) ∧
    (decode S w = none ∨ decode S w = some 0 → p = orderTwo) := by
  refine ⟨⟨?_, ?_⟩, fun hdec => ?_⟩
  · rintro ⟨hp, hdec⟩
    obtain ⟨hne, hsq⟩ := isSquare_of_decode S hp hdec
    exact ⟨sub_ne_zero.mp hne, hsq⟩
  · rintro ⟨hne, hsq⟩
    have hcurve := SchnorrTargets.compressionGate_onCurve h
    exact ⟨hcurve, decode_of_isSquare S hcurve h.1 (sub_ne_zero.mpr hne) hsq⟩
  · obtain rfl | ⟨-, hquad⟩ := compressionGate_iff.mp h
    · rfl
    · obtain ⟨x, y, hp, hsome⟩ := decode_isSome S (ne_zero_of_quadratic hquad) hquad
      rw [hsome] at hdec
      rcases hdec with hnone | hzero
      · cases hnone
      · exact absurd (Option.some.inj hzero) (WeierstrassCurve.Affine.Point.some_ne_zero _)

/-- The compressed generator decodes to the generator. -/
theorem generator_accepted_decoded : CompressionGate 1 generatorKey.toQuintic generatorPoint ∧
    ∃ hp : generatorPoint.OnCurve,
      decode someBaseSqrt generatorKey.toQuintic = some hp.toPoint :=
  have h : CompressionGate 1 generatorKey.toQuintic generatorPoint :=
    ⟨by decide +kernel, by decide +kernel⟩
  ⟨h, (compressionGate_decode_iff someBaseSqrt h).1.mpr generator_mem⟩

/-- The gate accepts the point of order two for the compressed generator, and for the word of
the point at infinity. -/
theorem orderTwo_accepted :
    (CompressionGate 1 generatorKey.toQuintic orderTwo ∧
      ¬ ∃ hp : orderTwo.OnCurve, decode someBaseSqrt generatorKey.toQuintic = some hp.toPoint) ∧
    CompressionGate 1 0 orderTwo ∧ decode someBaseSqrt 0 = some 0 := by
  refine ⟨⟨compressionGate_orderTwo _, ?_⟩, compressionGate_orderTwo _, if_pos rfl⟩
  rintro ⟨hp, hdec⟩
  exact (isSquare_of_decode someBaseSqrt hp hdec).1 (sub_self _)

end Doxa.Circuit
