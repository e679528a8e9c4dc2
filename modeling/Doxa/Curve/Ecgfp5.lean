import Doxa.Field.Gfp5
import Doxa.Lib.DoubleOdd
import Mathlib.NumberTheory.LegendreSymbol.QuadraticChar.Basic

/-!
# The curve ecGFp5

The curve over the quintic extension, its points and their compressed form. The group law
is that of the Weierstrass curve; `encode`, `decode`, the square root and the Legendre
symbol of the extension are translated. The square root of the base field is a parameter.
-/

namespace Doxa

open Lib WeierstrassCurve.Affine

/-! ## Constants -/

def ECGFP5_A : QuinticExtension := ⟨2, 0, 0, 0, 0⟩
def ECGFP5_A_DIV_3 : QuinticExtension := ⟨6148914689804861441, 0, 0, 0, 0⟩
def ECGFP5_B : QuinticExtension := ⟨0, 263, 0, 0, 0⟩
def ECGFP5_4BZ : QuinticExtension := ⟨0, 263 * 4, 0, 0, 0⟩
def ECGFP5_CAP_A : QuinticExtension := ⟨6148914689804861439, 263, 0, 0, 0⟩
def ECGFP5_CAP_B : QuinticExtension := ⟨15713893096167979237, 6148914689804861265, 0, 0, 0⟩

/-- The first coordinate of the generator. -/
def GENERATOR_X : QuinticExtension :=
  ⟨11712523173042564207, 14090224426659529053, 13197813503519687414, 16280770174934269299,
    15998333998318935536⟩

def GENERATOR_Y : QuinticExtension :=
  ⟨14639054205878357578, 17426078571020221072, 2548978194165003307, 8663895577921260088,
    9793640284382595140⟩

/-! ## Non-squares -/

theorem base_not_isSquare {n : F} (hn : n ^ (18446744069414584321 / 2) ≠ 1) (hn0 : n ≠ 0) :
    ¬ IsSquare n := by
  rw [ZMod.euler_criterion _ hn0]
  exact hn

theorem b_norm : Quintic.norm zeta_pow_five ECGFP5_B = Quintic.ofBase 3774852592629 := rfl

theorem b_not_isSquare : ¬ IsSquare ECGFP5_B := by
  refine Quintic.not_isSquare_of_norm zeta_pow_five zeta_ne_one b_norm ?_
  refine base_not_isSquare ?_ (by decide)
  unfold F
  norm_num
  reduce_mod_char
  decide

/-- In a finite field the quotient of two non-squares is a square. -/
theorem isSquare_of_mul {x y : QuinticExtension} (hx : ¬ IsSquare x) (hxy : ¬ IsSquare (x * y)) :
    IsSquare y := by
  have := Fintype.ofFinite QuinticExtension
  by_contra hy
  have hmul := map_mul (quadraticChar QuinticExtension) x y
  rw [quadraticChar_neg_one_iff_not_isSquare.mpr hx, quadraticChar_neg_one_iff_not_isSquare.mpr hy,
    quadraticChar_neg_one_iff_not_isSquare.mpr hxy] at hmul
  exact absurd hmul (by decide)

/-- `a² - 4 b`. -/
def ECGFP5_DISC : QuinticExtension := ⟨4, -1052, 0, 0, 0⟩

theorem disc_norm : Quintic.norm zeta_pow_five ECGFP5_DISC = Quintic.ofBase 18442878620359733249 :=
  rfl

theorem disc_not_isSquare : ¬ IsSquare ECGFP5_DISC := by
  refine Quintic.not_isSquare_of_norm zeta_pow_five zeta_ne_one disc_norm ?_
  refine base_not_isSquare ?_ (by decide)
  unfold F
  norm_num
  reduce_mod_char
  decide

theorem three_mul_adiv3_sq_add_capA : 3 * ECGFP5_A_DIV_3 ^ 2 + ECGFP5_CAP_A = ECGFP5_B := rfl

theorem three_mul_adiv3 : 3 * ECGFP5_A_DIV_3 = ECGFP5_A := rfl

theorem fourBZ_eq : ECGFP5_4BZ = 4 * ECGFP5_B := rfl

/-- The curve `y² = x³ + A x + B`, in `u = x - a/3` the curve `y² = u (u² + a u + b)`. -/
def ecgfp5 : DoubleOdd QuinticExtension where
  A := ECGFP5_CAP_A
  e := ECGFP5_A_DIV_3
  two_ne_zero := by decide
  not_isSquare_b := by
    rw [three_mul_adiv3_sq_add_capA]
    exact b_not_isSquare
  not_isSquare_disc := by
    have hdisc : -(3 * ECGFP5_A_DIV_3 ^ 2) - 4 * ECGFP5_CAP_A = ECGFP5_DISC := rfl
    rw [hdisc]
    exact disc_not_isSquare

theorem ecgfp5_b : ecgfp5.b = ECGFP5_B := three_mul_adiv3_sq_add_capA

theorem ecgfp5_B : ecgfp5.B = ECGFP5_CAP_B := rfl

/-- `PointEw`: infinity, or coordinates that satisfy the curve equation. -/
abbrev PointEw := ecgfp5.curve.Point

theorem generator_onCurve : ecgfp5.OnCurve GENERATOR_X GENERATOR_Y := rfl

def generator : PointEw := generator_onCurve.point

/-! ## Square roots -/

/-- Squared `n` times. -/
def repeatedSquare {M : Type*} [Mul M] (v : M) (n : ℕ) : M := (fun x => x * x)^[n] v

/-- `x ^ (2^32 - 1)` as the square root and the Legendre symbol compute it. -/
def allOnes32 {M : Type*} [Mul M] (x : M) : M :=
  let x2 := x * (x * x)
  let x4 := x2 * repeatedSquare x2 2
  let x8 := x4 * repeatedSquare x4 4
  let x16 := x8 * repeatedSquare x8 8
  x16 * repeatedSquare x16 16

theorem repeatedSquare_eq {M : Type*} [Monoid M] (v : M) (n : ℕ) :
    repeatedSquare v n = v ^ 2 ^ n := by
  unfold repeatedSquare
  induction n with
  | zero => simp
  | succ n ih => rw [Function.iterate_succ_apply', ih, ← pow_add, pow_succ, mul_two]

theorem allOnes32_eq {M : Type*} [CommMonoid M] (x : M) : allOnes32 x = x ^ (2 ^ 32 - 1) := by
  simp only [allOnes32, repeatedSquare_eq, ← pow_two, ← pow_succ', ← pow_mul, ← pow_add]
  norm_num

instance : CharP QuinticExtension 18446744069414584321 :=
  charP_of_injective_ringHom (f := (Quintic.ofBase : F →+* QuinticExtension))
    Quintic.ofBase_injective _

/-- The adjoined root. -/
def zRoot : QuinticExtension := ⟨0, 1, 0, 0, 0⟩

theorem eq_sum_zRoot (x : QuinticExtension) : x = Quintic.ofBase x.c0 +
    Quintic.ofBase x.c1 * zRoot + Quintic.ofBase x.c2 * zRoot ^ 2 +
    Quintic.ofBase x.c3 * zRoot ^ 3 + Quintic.ofBase x.c4 * zRoot ^ 4 := by
  ext <;> simp [zRoot, pow_succ]

theorem three_pow_eq_zeta : (3 : F) ^ 3689348813882916864 = ZETA := by
  unfold F ZETA
  reduce_mod_char

theorem zRoot_pow_order : zRoot ^ 18446744069414584321 = Quintic.ofBase ZETA * zRoot := by
  have hfive : zRoot ^ 5 = Quintic.ofBase 3 := rfl
  rw [← three_pow_eq_zeta, map_pow, ← hfive, ← pow_mul, ← pow_succ]

theorem ofBase_pow_order (c : F) :
    (Quintic.ofBase c : QuinticExtension) ^ 18446744069414584321 = Quintic.ofBase c := by
  rw [← map_pow, ZMod.pow_card]

namespace QuinticExtension

def frobenius (x : QuinticExtension) : QuinticExtension := Quintic.twist zeta_pow_five x

theorem frobenius_eq_pow (x : QuinticExtension) : frobenius x = x ^ 18446744069414584321 := by
  have hterm : ∀ (c : F) (n : ℕ), (Quintic.ofBase c * zRoot ^ n) ^ 18446744069414584321 =
      Quintic.ofBase (ZETA ^ n * c) * zRoot ^ n := by
    intro c n
    rw [mul_pow, ofBase_pow_order, ← pow_mul, mul_comm n, pow_mul, zRoot_pow_order, mul_pow,
      map_mul, map_pow]
    ring
  have hpow : x ^ 18446744069414584321 = Quintic.ofBase x.c0 +
      Quintic.ofBase (ZETA ^ 1 * x.c1) * zRoot ^ 1 + Quintic.ofBase (ZETA ^ 2 * x.c2) * zRoot ^ 2 +
      Quintic.ofBase (ZETA ^ 3 * x.c3) * zRoot ^ 3 +
      Quintic.ofBase (ZETA ^ 4 * x.c4) * zRoot ^ 4 := by
    conv_lhs => rw [eq_sum_zRoot x, ← pow_one zRoot]
    simp only [add_pow_char, ← hterm, ofBase_pow_order]
    simp
  rw [hpow, pow_one]
  exact eq_sum_zRoot (frobenius x)

/-- `x ^ ((r - 1) / 2)` with `r = 1 + p + p² + p³ + p⁴`. -/
def halfPower (x : QuinticExtension) : QuinticExtension :=
  let t := repeatedSquare (allOnes32 x) 31 * x
  frobenius (t * frobenius (frobenius t))

/-- With the other conjugates removed from the norm, what is left is a square. -/
theorem mul_halfPower_sq (x : QuinticExtension) :
    x * (x.halfPower * x.halfPower) = Quintic.norm zeta_pow_five x := by
  have hsq : (repeatedSquare (allOnes32 x) 31 * x) * (repeatedSquare (allOnes32 x) 31 * x) =
      x * Quintic.twist zeta_pow_five x := by
    have hfrob := frobenius_eq_pow x
    unfold frobenius at hfrob
    have hexp : (2 ^ 32 - 1) * 2 ^ 31 + 1 + ((2 ^ 32 - 1) * 2 ^ 31 + 1) =
        18446744069414584321 + 1 := by norm_num
    rw [hfrob, repeatedSquare_eq, allOnes32_eq, ← pow_mul, ← pow_succ, ← pow_add, ← pow_succ', hexp]
  unfold halfPower
  generalize repeatedSquare (allOnes32 x) 31 * x = t at hsq
  calc x * (frobenius (t * frobenius (frobenius t)) * frobenius (t * frobenius (frobenius t)))
      = x * Quintic.twist zeta_pow_five (t * t *
          Quintic.twist zeta_pow_five (Quintic.twist zeta_pow_five (t * t))) := by
        simp only [frobenius, map_mul]
        ring
    _ = Quintic.norm zeta_pow_five x := by
        rw [hsq]
        simp only [map_mul, Quintic.norm]
        ring

theorem norm_eq_ofBase (x : QuinticExtension) :
    Quintic.norm zeta_pow_five x = Quintic.ofBase (Quintic.norm zeta_pow_five x).c0 :=
  Quintic.eq_ofBase_of_twist_eq zeta_pow_five zeta_ne_one (Quintic.twist_norm zeta_pow_five x)

/-- A root of the norm divided by `halfPower` is a root. -/
theorem root_of_norm {x : QuinticExtension} (hx : x ≠ 0) {s : F}
    (hs : s * s = (Quintic.norm zeta_pow_five x).c0) :
    x.halfPower⁻¹ * Quintic.ofBase s * (x.halfPower⁻¹ * Quintic.ofBase s) = x := by
  have hmul := mul_halfPower_sq x
  have hnorm := norm_eq_ofBase x
  have hne : x.halfPower ≠ 0 := by
    intro hzero
    rw [hzero, mul_zero, mul_zero] at hmul
    exact Quintic.norm_ne_zero zeta_pow_five hx hmul.symm
  rw [hnorm, ← hs, map_mul] at hmul
  field_simp
  linear_combination -hmul

theorem isSquare_iff_norm {x : QuinticExtension} (hx : x ≠ 0) :
    IsSquare x ↔ IsSquare (Quintic.norm zeta_pow_five x).c0 := by
  constructor
  · intro hsq
    by_contra hns
    exact Quintic.not_isSquare_of_norm zeta_pow_five zeta_ne_one (norm_eq_ofBase x) hns hsq
  · rintro ⟨s, hs⟩
    exact ⟨_, (root_of_norm hx hs.symm).symm⟩

end QuinticExtension

/-- `PrimeField::sqrt` of the base field. -/
structure BaseSqrt where
  sqrt : F → Option F
  mul_self_of_some : ∀ {a s : F}, sqrt a = some s → s * s = a
  not_isSquare_of_none : ∀ {a : F}, sqrt a = none → ¬ IsSquare a

variable (S : BaseSqrt)

namespace QuinticExtension

def sqrt (x : QuinticExtension) : Option QuinticExtension :=
  let t := x.halfPower
  let y := x * (t * t)
  (S.sqrt y.c0).map fun sqrta => t⁻¹ * Quintic.ofBase sqrta

theorem mul_self_of_sqrt {x r : QuinticExtension} (hx : x ≠ 0) (h : x.sqrt S = some r) :
    r * r = x := by
  simp only [sqrt, Option.map_eq_some_iff] at h
  obtain ⟨s, hs, rfl⟩ := h
  rw [mul_halfPower_sq] at hs
  exact root_of_norm hx (S.mul_self_of_some hs)

theorem not_isSquare_of_sqrt {x : QuinticExtension} (hx : x ≠ 0) (h : x.sqrt S = none) :
    ¬ IsSquare x := by
  simp only [sqrt, Option.map_eq_none_iff, mul_halfPower_sq] at h
  rw [isSquare_iff_norm hx]
  exact S.not_isSquare_of_none h

end QuinticExtension

/-! ## Legendre symbols -/

inductive LegendreSymbol where
  | zero
  | one
  | negone
  deriving DecidableEq

/-- `LegendreSymbol::from`. -/
def LegendreSymbol.fromNat (value : ℕ) : LegendreSymbol :=
  if value = 0 then .zero else if value = 1 then .one else .negone

/-- `GoldilocksField::legendre`. -/
def legendreBase (x : F) : LegendreSymbol :=
  .fromNat (repeatedSquare (allOnes32 x) 31).val

theorem legendreBase_eq_one_iff (x : F) : legendreBase x = .one ↔ x ≠ 0 ∧ IsSquare x := by
  have hpow : repeatedSquare (allOnes32 x) 31 = x ^ (18446744069414584321 / 2) := by
    have hexp : (2 ^ 32 - 1) * 2 ^ 31 = 18446744069414584321 / 2 := by norm_num
    rw [repeatedSquare_eq, allOnes32_eq, ← pow_mul, hexp]
  have hval : legendreBase x = .one ↔ x ^ (18446744069414584321 / 2) = 1 := by
    rw [← ZMod.val_eq_one (by norm_num), ← hpow, legendreBase, LegendreSymbol.fromNat]
    split <;> simp_all
  rw [hval]
  by_cases hx : x = 0
  · subst hx
    simp
  · rw [ZMod.euler_criterion _ hx]
    exact ⟨fun h => ⟨hx, h⟩, And.right⟩

namespace QuinticExtension

def legendre (x : QuinticExtension) : LegendreSymbol :=
  let x0 := frobenius x
  let x1 := frobenius x0
  let x2 := x0 * x1
  let x3 := frobenius (frobenius x2)
  let x4 := x2 * x3
  legendreBase (x * x4).c0

theorem legendre_eq_one_iff (x : QuinticExtension) :
    x.legendre = .one ↔ x ≠ 0 ∧ IsSquare x := by
  have hprod : x * (frobenius x * frobenius (frobenius x) *
      frobenius (frobenius (frobenius x * frobenius (frobenius x)))) =
      Quintic.norm zeta_pow_five x := by
    simp only [frobenius, Quintic.norm, map_mul]
    ring
  unfold legendre
  dsimp only
  rw [hprod, legendreBase_eq_one_iff]
  by_cases hx : x = 0
  · subst hx
    have hzero : Quintic.norm zeta_pow_five (0 : QuinticExtension) = 0 := by simp [Quintic.norm]
    rw [hzero]
    simp
  · have hne : (Quintic.norm zeta_pow_five x).c0 ≠ 0 := by
      intro hzero
      have hnorm := norm_eq_ofBase x
      rw [hzero, map_zero] at hnorm
      exact Quintic.norm_ne_zero zeta_pow_five hx hnorm
    rw [isSquare_iff_norm hx]
    exact ⟨fun h => ⟨hx, h.2⟩, fun h => ⟨hne, h.2⟩⟩

end QuinticExtension

/-! ## Compressed points -/

/-- `PointEw::encode`; the division panics at the point of order two. -/
def encode : PointEw → Option QuinticExtension
  | .zero => some 0
  | .some x y _ => if ECGFP5_A_DIV_3 - x = 0 then none else some (y / (ECGFP5_A_DIV_3 - x))

/-- The roots of `X² - e X + b` from the root of its discriminant. -/
def decodeRoots (e r : QuinticExtension) : QuinticExtension × QuinticExtension :=
  let half : F := 9223372034707292161
  ((e + r) * Quintic.ofBase half, (e - r) * Quintic.ofBase half)

/-- The `u` that `decode` selects. -/
def decodeU (e r : QuinticExtension) : QuinticExtension :=
  if (decodeRoots e r).1.legendre = .one then (decodeRoots e r).1 else (decodeRoots e r).2

theorem half_mul_two : (Quintic.ofBase (9223372034707292161 : F) : QuinticExtension) * 2 = 1 := rfl

theorem decodeRoots_quadratic {e r : QuinticExtension} (hr : r * r = e ^ 2 - ECGFP5_4BZ)
    {u : QuinticExtension} :
    u ^ 2 - e * u + ECGFP5_B = 0 ↔ u = (decodeRoots e r).1 ∨ u = (decodeRoots e r).2 := by
  have hhalf := half_mul_two
  rw [fourBZ_eq] at hr
  simp only [decodeRoots]
  generalize (Quintic.ofBase (9223372034707292161 : F) : QuinticExtension) = half at *
  have hfactor : u ^ 2 - e * u + ECGFP5_B = (u - (e + r) * half) * (u - (e - r) * half) := by
    linear_combination (e * u - ECGFP5_B * (2 * half + 1)) * hhalf + half ^ 2 * hr
  rw [hfactor, mul_eq_zero, sub_eq_zero, sub_eq_zero]

theorem delta_ne_zero (e : QuinticExtension) : e ^ 2 - ECGFP5_4BZ ≠ 0 := by
  intro hzero
  have hhalf := half_mul_two
  rw [fourBZ_eq] at hzero
  refine b_not_isSquare ⟨e * Quintic.ofBase 9223372034707292161, ?_⟩
  generalize (Quintic.ofBase (9223372034707292161 : F) : QuinticExtension) = half at *
  linear_combination -(half ^ 2) * hzero - ECGFP5_B * (2 * half + 1) * hhalf

theorem decodeU_quadratic {e r : QuinticExtension} (hr : r * r = e ^ 2 - ECGFP5_4BZ) :
    decodeU e r ^ 2 - e * decodeU e r + ECGFP5_B = 0 := by
  rw [decodeRoots_quadratic hr]
  unfold decodeU
  split
  · exact .inl rfl
  · exact .inr rfl

theorem decode_onCurve {w r : QuinticExtension}
    (hr : r * r = (w ^ 2 - ECGFP5_A) ^ 2 - ECGFP5_4BZ) :
    ecgfp5.OnCurve (decodeU (w ^ 2 - ECGFP5_A) r + ECGFP5_A_DIV_3)
      (-w * decodeU (w ^ 2 - ECGFP5_A) r) := by
  have hquad := decodeU_quadratic hr
  refine DoubleOdd.onCurve_of_factor ?_
  change _ = (decodeU _ r + ECGFP5_A_DIV_3 - ECGFP5_A_DIV_3) *
    ((decodeU _ r + ECGFP5_A_DIV_3 - ECGFP5_A_DIV_3) ^ 2 + 3 * ECGFP5_A_DIV_3 *
      (decodeU _ r + ECGFP5_A_DIV_3 - ECGFP5_A_DIV_3) + ecgfp5.b)
  rw [add_sub_cancel_right, three_mul_adiv3, ecgfp5_b]
  linear_combination -(decodeU (w ^ 2 - ECGFP5_A) r) * hquad

def decode (w : QuinticExtension) : Option PointEw :=
  if w = 0 then some 0
  else
    match h : QuinticExtension.sqrt S ((w ^ 2 - ECGFP5_A) ^ 2 - ECGFP5_4BZ) with
    | none => none
    | some _ =>
      some (decode_onCurve (QuinticExtension.mul_self_of_sqrt S (delta_ne_zero _) h)).point

/-- The selected root is a square: the product of the two roots is none. -/
theorem decodeU_isSquare {e r : QuinticExtension} (hr : r * r = e ^ 2 - ECGFP5_4BZ) :
    decodeU e r ≠ 0 ∧ IsSquare (decodeU e r) := by
  have hprod : (decodeRoots e r).1 * (decodeRoots e r).2 = ECGFP5_B := by
    have hhalf := half_mul_two
    rw [fourBZ_eq] at hr
    simp only [decodeRoots]
    generalize (Quintic.ofBase (9223372034707292161 : F) : QuinticExtension) = half at *
    linear_combination -(half ^ 2) * hr + ECGFP5_B * (2 * half + 1) * hhalf
  unfold decodeU
  split
  · case isTrue h => exact (QuinticExtension.legendre_eq_one_iff _).mp h
  · case isFalse h =>
      have hb : ECGFP5_B ≠ 0 := fun hzero => b_not_isSquare (hzero ▸ IsSquare.zero)
      have hne : (decodeRoots e r).1 ≠ 0 ∧ (decodeRoots e r).2 ≠ 0 := by
        rw [← mul_ne_zero_iff, hprod]
        exact hb
      rw [QuinticExtension.legendre_eq_one_iff] at h
      refine ⟨hne.2, isSquare_of_mul (fun hsq => h ⟨hne.1, hsq⟩) ?_⟩
      rw [hprod]
      exact b_not_isSquare

section Decode

variable {w x y : QuinticExtension}

/-- `decode` never returns a finite point with a non-square `u`. -/
theorem isSquare_of_decode (h : ecgfp5.OnCurve x y) (hdec : decode S w = some h.point) :
    x - ECGFP5_A_DIV_3 ≠ 0 ∧ IsSquare (x - ECGFP5_A_DIV_3) := by
  unfold decode at hdec
  split at hdec
  · exact absurd (Option.some.inj hdec).symm (Point.some_ne_zero _)
  · split at hdec
    · exact absurd hdec (by simp)
    · case h_2 r hr =>
        have hr := QuinticExtension.mul_self_of_sqrt S (delta_ne_zero _) hr
        have hx := (Point.some.inj (Option.some.inj hdec)).1
        rw [← hx, add_sub_cancel_right]
        exact decodeU_isSquare hr

/-- The quadratic equation a compressed point satisfies. -/
theorem compressed_quadratic (h : ecgfp5.OnCurve x y) (hw : w * (ECGFP5_A_DIV_3 - x) = y)
    (hne : x - ECGFP5_A_DIV_3 ≠ 0) :
    (x - ECGFP5_A_DIV_3) ^ 2 - (w ^ 2 - ECGFP5_A) * (x - ECGFP5_A_DIV_3) + ECGFP5_B = 0 := by
  have hfactor := h.factor
  change y ^ 2 = (x - ECGFP5_A_DIV_3) * ((x - ECGFP5_A_DIV_3) ^ 2 + 3 * ECGFP5_A_DIV_3 *
    (x - ECGFP5_A_DIV_3) + ecgfp5.b) at hfactor
  rw [three_mul_adiv3, ecgfp5_b, ← hw] at hfactor
  refine (mul_eq_zero.mp ?_).resolve_left hne
  linear_combination -hfactor

/-- Two different roots of the quadratic cannot both be squares. -/
theorem quadratic_root_unique {e u v : QuinticExtension} (hu : u ^ 2 - e * u + ECGFP5_B = 0)
    (hv : v ^ 2 - e * v + ECGFP5_B = 0) (hsu : IsSquare u) (hsv : IsSquare v) : u = v := by
  by_contra hne
  have hsum : u + v - e = 0 := by
    refine (mul_eq_zero.mp ?_).resolve_left (sub_ne_zero.mpr hne)
    linear_combination hu - hv
  refine b_not_isSquare ?_
  have hprod : ECGFP5_B = u * v := by linear_combination hu - u * hsum
  rw [hprod]
  exact hsu.mul hsv

/-- What is decoded to find a compressed point is not zero and has a square discriminant. -/
theorem compressed_isSquare (h : ecgfp5.OnCurve x y) (hw : w * (ECGFP5_A_DIV_3 - x) = y)
    (hne : x - ECGFP5_A_DIV_3 ≠ 0) :
    w ≠ 0 ∧ IsSquare ((w ^ 2 - ECGFP5_A) ^ 2 - ECGFP5_4BZ) := by
  have hquad := compressed_quadratic h hw hne
  constructor
  · rintro rfl
    rw [zero_mul] at hw
    exact hne (sub_eq_zero.mpr (h.y_eq_zero_iff.mp hw.symm))
  · refine ⟨2 * (x - ECGFP5_A_DIV_3) - (w ^ 2 - ECGFP5_A), ?_⟩
    rw [fourBZ_eq]
    linear_combination -4 * hquad

/-- A compressed point with square `u` is the one `decode` returns. -/
theorem decode_of_isSquare (h : ecgfp5.OnCurve x y) (hw : w * (ECGFP5_A_DIV_3 - x) = y)
    (hne : x - ECGFP5_A_DIV_3 ≠ 0) (hsq : IsSquare (x - ECGFP5_A_DIV_3)) :
    decode S w = some h.point := by
  have hquad := compressed_quadratic h hw hne
  obtain ⟨hw0, hdelta⟩ := compressed_isSquare h hw hne
  unfold decode
  rw [if_neg hw0]
  split
  · case h_1 hnone =>
      exact absurd hdelta (QuinticExtension.not_isSquare_of_sqrt S (delta_ne_zero _) hnone)
  · case h_2 r hr =>
      have hr := QuinticExtension.mul_self_of_sqrt S (delta_ne_zero _) hr
      have hroot := quadratic_root_unique hquad (decodeU_quadratic hr) hsq (decodeU_isSquare hr).2
      refine congrArg some (DoubleOdd.point_congr _ h ?_ ?_)
      · rw [← hroot, sub_add_cancel]
      · rw [← hroot, ← hw]
        ring

theorem encode_point (h : ecgfp5.OnCurve x y) (hne : ECGFP5_A_DIV_3 - x ≠ 0) :
    encode h.point = some (y / (ECGFP5_A_DIV_3 - x)) := by
  have hdef : encode h.point =
      if ECGFP5_A_DIV_3 - x = 0 then none else some (y / (ECGFP5_A_DIV_3 - x)) := rfl
  rw [hdef, if_neg hne]

/-- The point that `decode` returns is encoded as what was decoded. -/
theorem encode_of_decode {P : PointEw} (hdec : decode S w = some P) : encode P = some w := by
  unfold decode at hdec
  split at hdec
  · case isTrue hw =>
      rw [← Option.some.inj hdec, hw]
      rfl
  · split at hdec
    · exact absurd hdec (by simp)
    · case h_2 r hr =>
        have hr := QuinticExtension.mul_self_of_sqrt S (delta_ne_zero _) hr
        have hu := (decodeU_isSquare hr).1
        have hden (u : QuinticExtension) : ECGFP5_A_DIV_3 - (u + ECGFP5_A_DIV_3) = -u := by ring
        have hne := neg_ne_zero.mpr hu
        rw [← hden] at hne
        rw [← Option.some.inj hdec, encode_point _ hne, hden, neg_mul, neg_div_neg_eq,
          mul_div_cancel_right₀ _ hu]

/-- What encodes a point can be decoded. -/
theorem decode_isSome_of_encode {P : PointEw} (henc : encode P = some w) :
    (decode S w).isSome = true := by
  cases P with
  | zero =>
    rw [← Option.some.inj henc, decode, if_pos rfl]
    rfl
  | some x y hns =>
    have h : ecgfp5.OnCurve x y := DoubleOdd.equation_iff.mp hns.1
    have hpoint : encode h.point =
        if ECGFP5_A_DIV_3 - x = 0 then none else some (y / (ECGFP5_A_DIV_3 - x)) := rfl
    have henc := hpoint.symm.trans henc
    split at henc
    · exact absurd henc (by simp)
    · case isFalse hden =>
        have hw : w * (ECGFP5_A_DIV_3 - x) = y := by
          rw [← Option.some.inj henc, div_mul_cancel₀ _ hden]
        have hne : x - ECGFP5_A_DIV_3 ≠ 0 := by
          rw [← neg_sub]
          exact neg_ne_zero.mpr hden
        obtain ⟨hw0, hdelta⟩ := compressed_isSquare h hw hne
        unfold decode
        rw [if_neg hw0]
        split
        · case h_1 hnone =>
            exact absurd hdelta (QuinticExtension.not_isSquare_of_sqrt S (delta_ne_zero _) hnone)
        · rfl

/-- Points with square `u` survive the round trip. -/
theorem decode_encode {P : PointEw} (hP : P ∈ ecgfp5.squares) :
    ∃ w, encode P = some w ∧ decode S w = some P := by
  cases P with
  | zero =>
    refine ⟨0, rfl, ?_⟩
    rw [decode, if_pos rfl]
    rfl
  | some x y hns =>
    obtain ⟨hx, hsq⟩ := hP
    have hne : x - ECGFP5_A_DIV_3 ≠ 0 := sub_ne_zero.mpr hx
    have hden : ECGFP5_A_DIV_3 - x ≠ 0 := sub_ne_zero.mpr (Ne.symm hx)
    have h : ecgfp5.OnCurve x y := DoubleOdd.equation_iff.mp hns.1
    exact ⟨_, encode_point h hden, decode_of_isSquare S h (div_mul_cancel₀ _ hden) hne hsq⟩

end Decode

end Doxa
