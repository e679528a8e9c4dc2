import Doxa.Lib.Numerals
import Mathlib.AlgebraicGeometry.EllipticCurve.Affine.Point
import Mathlib.Tactic.FieldSimp

/-!
# Double-odd curves

Short Weierstrass curves with exactly one point `N = (e, 0)` of order two. In `u = x - e`
the equation reads `y² = u (u² + 3 e u + b)` with `b = 3 e² + A`; neither `b` nor the
discriminant of the quadratic factor is a square.

A finite point other than `N` is a `DoubleOdd.OddPoint`. Doubling and adding `N` stay among
these points (`double`, `shift`), and the points with a non-zero square `u` form with
infinity a subgroup that does not contain `N`.
-/

namespace Lib

open WeierstrassCurve.Affine

structure DoubleOdd (K : Type*) [Field K] where
  A : K
  e : K
  two_ne_zero : (2 : K) ≠ 0
  not_isSquare_b : ¬ IsSquare (3 * e ^ 2 + A)
  not_isSquare_disc : ¬ IsSquare (-(3 * e ^ 2) - 4 * A)

namespace DoubleOdd

variable {K : Type*} [Field K] (E : DoubleOdd K)

def B : K := -(E.e ^ 3) - E.A * E.e

def b : K := 3 * E.e ^ 2 + E.A

def curve : WeierstrassCurve.Affine K where
  a₁ := 0
  a₂ := 0
  a₃ := 0
  a₄ := E.A
  a₆ := E.B

def OnCurve (x y : K) : Prop := y ^ 2 = x ^ 3 + E.A * x + E.B

variable {E} {x y x₁ y₁ x₂ y₂ x₃ y₃ : K}

theorem b_ne_zero : E.b ≠ 0 := fun h => E.not_isSquare_b ⟨0, by rw [mul_zero]; exact h⟩

/-- The equation in `u = x - e`. -/
theorem OnCurve.factor (h : E.OnCurve x y) :
    y ^ 2 = (x - E.e) * ((x - E.e) ^ 2 + 3 * E.e * (x - E.e) + E.b) := by
  unfold OnCurve B at h
  unfold b
  linear_combination h

theorem onCurve_of_factor
    (h : y ^ 2 = (x - E.e) * ((x - E.e) ^ 2 + 3 * E.e * (x - E.e) + E.b)) : E.OnCurve x y := by
  unfold b at h
  unfold OnCurve B
  linear_combination h

theorem onCurve_order_two : E.OnCurve E.e 0 := by
  unfold OnCurve B
  ring

theorem OnCurve.neg (h : E.OnCurve x y) : E.OnCurve x (-y) := by
  unfold OnCurve at *
  linear_combination h

/-- The quadratic factor has no root. -/
theorem quadratic_ne_zero (u : K) : u ^ 2 + 3 * E.e * u + E.b ≠ 0 := by
  intro h
  unfold b at h
  refine E.not_isSquare_disc ⟨2 * u + 3 * E.e, ?_⟩
  linear_combination -4 * h

theorem OnCurve.y_eq_zero_iff (h : E.OnCurve x y) : y = 0 ↔ x = E.e := by
  have hfactor := h.factor
  constructor
  · rintro rfl
    have hprod : (x - E.e) * ((x - E.e) ^ 2 + 3 * E.e * (x - E.e) + E.b) = 0 := by
      rw [← hfactor]
      ring
    exact sub_eq_zero.mp ((mul_eq_zero.mp hprod).resolve_right (quadratic_ne_zero _))
  · rintro rfl
    rw [sub_self, zero_mul] at hfactor
    exact pow_eq_zero_iff (by decide) |>.mp hfactor

theorem OnCurve.y_ne_zero (h : E.OnCurve x y) (hx : x ≠ E.e) : y ≠ 0 := fun hy =>
  hx (h.y_eq_zero_iff.mp hy)

theorem equation_iff : E.curve.Equation x y ↔ E.OnCurve x y := by
  rw [WeierstrassCurve.Affine.equation_iff]
  simp only [curve, OnCurve]
  constructor <;> intro h <;> linear_combination h

theorem OnCurve.nonsingular (h : E.OnCurve x y) : E.curve.Nonsingular x y := by
  rw [WeierstrassCurve.Affine.nonsingular_iff]
  refine ⟨equation_iff.mpr h, ?_⟩
  simp only [curve]
  by_cases hy : y = 0
  · refine .inl fun hzero => ?_
    have hx : x = E.e := h.y_eq_zero_iff.mp hy
    refine b_ne_zero (E := E) ?_
    rw [b, ← hx]
    linear_combination -hzero
  · refine .inr fun hzero => hy ?_
    have hdouble : 2 * y = 0 := by linear_combination hzero
    exact (mul_eq_zero.mp hdouble).resolve_left E.two_ne_zero

/-- The point of the group. -/
def OnCurve.point (h : E.OnCurve x y) : E.curve.Point := .some x y h.nonsingular

theorem point_congr (h₁ : E.OnCurve x₁ y₁) (h₂ : E.OnCurve x₂ y₂) (hx : x₁ = x₂) (hy : y₁ = y₂) :
    h₁.point = h₂.point := by
  subst hx hy
  rfl

theorem OnCurve.neg_point (h : E.OnCurve x y) : -h.point = h.neg.point := by
  simp only [OnCurve.point, Point.neg_some, Point.some.injEq, true_and]
  simp [negY, curve]

/-! ## Adding and doubling -/

/-- `u` of a double is a square. -/
theorem double_u_eq (h : E.OnCurve x y) (hy : y ≠ 0) :
    ((3 * x ^ 2 + E.A) / (2 * y)) ^ 2 - x - x - E.e =
      (((x - E.e) ^ 2 - E.b) / (2 * y)) ^ 2 := by
  have htwo := E.two_ne_zero
  unfold OnCurve B at h
  unfold b
  field_simp
  linear_combination (-4 * (2 * x + E.e)) * h

theorem double_x_ne (h : E.OnCurve x y) (hy : y ≠ 0) :
    ((3 * x ^ 2 + E.A) / (2 * y)) ^ 2 - x - x ≠ E.e := by
  intro hzero
  have hsq : (((x - E.e) ^ 2 - E.b) / (2 * y)) ^ 2 = 0 := by
    rw [← double_u_eq h hy, hzero, sub_self]
  have hnum : (x - E.e) ^ 2 - E.b = 0 := by
    rcases div_eq_zero_iff.mp (pow_eq_zero_iff (by decide) |>.mp hsq) with hnum | hden
    · exact hnum
    · exact absurd hden (mul_ne_zero E.two_ne_zero hy)
  exact E.not_isSquare_b ⟨x - E.e, by unfold b at hnum; linear_combination -hnum⟩

/-- The third `u` on a chord: the product of the three is the square of the line's value at
`u = 0`. -/
theorem chord_u_mul (h₁ : E.OnCurve x₁ y₁) (h₂ : E.OnCurve x₂ y₂) (hx : x₁ ≠ x₂) :
    (x₁ - E.e) * (x₂ - E.e) * (((y₂ - y₁) / (x₂ - x₁)) ^ 2 - x₁ - x₂ - E.e) =
      ((y₁ * (x₂ - E.e) - y₂ * (x₁ - E.e)) / (x₂ - x₁)) ^ 2 := by
  have hne : x₂ - x₁ ≠ 0 := sub_ne_zero.mpr hx.symm
  have hf₁ := h₁.factor
  have hf₂ := h₂.factor
  have hdiff : x₂ - x₁ = (x₂ - E.e) - (x₁ - E.e) := by ring
  rw [show ((y₂ - y₁) / (x₂ - x₁)) ^ 2 - x₁ - x₂ - E.e =
    ((y₂ - y₁) / (x₂ - x₁)) ^ 2 - (x₁ - E.e) - (x₂ - E.e) - 3 * E.e by ring]
  rw [hdiff] at hne ⊢
  generalize x₁ - E.e = u₁ at *
  generalize x₂ - E.e = u₂ at *
  field_simp
  linear_combination (u₁ * u₂ - u₂ ^ 2) * hf₁ + (u₁ * u₂ - u₁ ^ 2) * hf₂

/-- Two points on a line through `(e, 0)` have `u₁ u₂ = b`. -/
theorem mul_eq_b_of_line (h₁ : E.OnCurve x₁ y₁) (h₂ : E.OnCurve x₂ y₂) (hx : x₁ ≠ x₂)
    (hx₁ : x₁ ≠ E.e) (hx₂ : x₂ ≠ E.e) (hline : y₁ * (x₂ - E.e) = y₂ * (x₁ - E.e)) :
    (x₁ - E.e) * (x₂ - E.e) = E.b := by
  have hu₁ : x₁ - E.e ≠ 0 := sub_ne_zero.mpr hx₁
  have hu₂ : x₂ - E.e ≠ 0 := sub_ne_zero.mpr hx₂
  have hne : (x₁ - E.e) - (x₂ - E.e) ≠ 0 := by
    rw [sub_sub_sub_cancel_right]
    exact sub_ne_zero.mpr hx
  have hf₁ := h₁.factor
  have hf₂ := h₂.factor
  generalize x₁ - E.e = u₁ at *
  generalize x₂ - E.e = u₂ at *
  have hprod : u₁ * u₂ * (u₁ - u₂) * (u₁ * u₂ - E.b) = 0 := by
    linear_combination -(u₂ ^ 2) * hf₁ + u₁ ^ 2 * hf₂ + (y₁ * u₂ + y₂ * u₁) * hline
  have hcancel := (mul_eq_zero.mp hprod).resolve_left
    (mul_ne_zero (mul_ne_zero hu₁ hu₂) hne)
  exact sub_eq_zero.mp hcancel

variable [DecidableEq K]

/-- The chord: three points with the slope of the first two. -/
theorem add_point (h₁ : E.OnCurve x₁ y₁) (h₂ : E.OnCurve x₂ y₂) (hx : x₁ ≠ x₂)
    (hx₃ : x₃ = ((y₂ - y₁) / (x₂ - x₁)) ^ 2 - x₁ - x₂)
    (hy₃ : y₃ = (y₂ - y₁) / (x₂ - x₁) * (x₁ - x₃) - y₁) :
    ∃ h₃ : E.OnCurve x₃ y₃, h₁.point + h₂.point = h₃.point := by
  have hslope : E.curve.slope x₁ x₂ y₁ y₂ = (y₂ - y₁) / (x₂ - x₁) := by
    rw [slope_of_X_ne hx, ← neg_sub y₂ y₁, ← neg_sub x₂ x₁, neg_div_neg_eq]
  have hX : E.curve.addX x₁ x₂ (E.curve.slope x₁ x₂ y₁ y₂) = x₃ := by
    rw [hslope, hx₃]
    simp only [addX, curve]
    ring
  have hY : E.curve.addY x₁ x₂ y₁ (E.curve.slope x₁ x₂ y₁ y₂) = y₃ := by
    rw [addY, negAddY, hX, hslope, hy₃]
    simp only [negY, curve]
    ring
  have hns := nonsingular_add h₁.nonsingular h₂.nonsingular (W := E.curve) fun h => hx h.1
  have hcurve : E.OnCurve x₃ y₃ := by
    rw [hX, hY] at hns
    exact equation_iff.mp hns.1
  refine ⟨hcurve, ?_⟩
  rw [OnCurve.point, OnCurve.point, OnCurve.point, Point.add_of_X_ne hx]
  simp only [hX, hY]

/-- The tangent. -/
theorem double_point (h₁ : E.OnCurve x₁ y₁) (hy : y₁ ≠ 0)
    (hx₃ : x₃ = ((3 * x₁ ^ 2 + E.A) / (2 * y₁)) ^ 2 - x₁ - x₁)
    (hy₃ : y₃ = (3 * x₁ ^ 2 + E.A) / (2 * y₁) * (x₁ - x₃) - y₁) :
    ∃ h₃ : E.OnCurve x₃ y₃, h₁.point + h₁.point = h₃.point := by
  have hne : y₁ ≠ E.curve.negY x₁ y₁ := by
    intro h
    simp only [negY, curve] at h
    have hdouble : 2 * y₁ = 0 := by linear_combination h
    exact hy ((mul_eq_zero.mp hdouble).resolve_left E.two_ne_zero)
  have hslope : E.curve.slope x₁ x₁ y₁ y₁ = (3 * x₁ ^ 2 + E.A) / (2 * y₁) := by
    rw [slope_of_Y_ne rfl hne]
    simp only [negY, curve]
    congr 1 <;> ring
  have hX : E.curve.addX x₁ x₁ (E.curve.slope x₁ x₁ y₁ y₁) = x₃ := by
    rw [hslope, hx₃]
    simp only [addX, curve]
    ring
  have hY : E.curve.addY x₁ x₁ y₁ (E.curve.slope x₁ x₁ y₁ y₁) = y₃ := by
    rw [addY, negAddY, hX, hslope, hy₃]
    simp only [negY, curve]
    ring
  have hns := nonsingular_add h₁.nonsingular h₁.nonsingular (W := E.curve) fun h => hne h.2
  have hcurve : E.OnCurve x₃ y₃ := by
    rw [hX, hY] at hns
    exact equation_iff.mp hns.1
  refine ⟨hcurve, ?_⟩
  rw [OnCurve.point, OnCurve.point, Point.add_self_of_Y_ne hne]
  simp only [hX, hY]

/-! ## Points other than the one of order two -/

omit [DecidableEq K] in
variable (E) in
@[ext] structure OddPoint where
  x : K
  y : K
  onCurve : E.OnCurve x y
  x_ne : x ≠ E.e

namespace OddPoint

variable (P : E.OddPoint)

omit [DecidableEq K] in
theorem y_ne_zero : P.y ≠ 0 := P.onCurve.y_ne_zero P.x_ne

def point : E.curve.Point := P.onCurve.point

def double : E.OddPoint where
  x := ((3 * P.x ^ 2 + E.A) / (2 * P.y)) ^ 2 - P.x - P.x
  y := (3 * P.x ^ 2 + E.A) / (2 * P.y) *
    (P.x - (((3 * P.x ^ 2 + E.A) / (2 * P.y)) ^ 2 - P.x - P.x)) - P.y
  onCurve := (double_point P.onCurve P.y_ne_zero rfl rfl).1
  x_ne := double_x_ne P.onCurve P.y_ne_zero

theorem double_point_eq : P.double.point = P.point + P.point :=
  (double_point P.onCurve P.y_ne_zero rfl rfl).2.symm

/-- The sum with the point of order two. -/
def shift : E.OddPoint where
  x := E.e + E.b / (P.x - E.e)
  y := -(E.b * P.y / (P.x - E.e) ^ 2)
  onCurve := by
    have hu : P.x - E.e ≠ 0 := sub_ne_zero.mpr P.x_ne
    have h := P.onCurve
    refine onCurve_of_factor ?_
    rw [add_sub_cancel_left]
    field_simp
    linear_combination E.b ^ 2 * h.factor
  x_ne := by
    have hu : P.x - E.e ≠ 0 := sub_ne_zero.mpr P.x_ne
    intro h
    exact div_ne_zero b_ne_zero hu (by linear_combination h)

theorem double_u : P.double.x - E.e = (((P.x - E.e) ^ 2 - E.b) / (2 * P.y)) ^ 2 :=
  double_u_eq P.onCurve P.y_ne_zero

theorem double_y : P.double.y =
    (3 * (P.x - E.e) ^ 2 + 6 * E.e * (P.x - E.e) + E.b) / (2 * P.y) *
      ((P.x - E.e) - (P.double.x - E.e)) - P.y := by
  simp only [double, b]
  ring

theorem double_shift : P.shift.double = P.double := by
  have hu : P.x - E.e ≠ 0 := sub_ne_zero.mpr P.x_ne
  have hy := P.y_ne_zero
  have hb : E.b ≠ 0 := b_ne_zero
  have htwo := E.two_ne_zero
  have hfactor := P.onCurve.factor
  have hshift : P.shift.x - E.e = E.b / (P.x - E.e) := add_sub_cancel_left _ _
  have hshift' : P.shift.y = -(E.b * P.y / (P.x - E.e) ^ 2) := rfl
  have hx : P.shift.double.x - E.e = P.double.x - E.e := by
    rw [double_u, double_u, hshift, hshift']
    field_simp
    ring
  ext
  · linear_combination hx
  · rw [double_y, double_y, hx, double_u, hshift, hshift']
    generalize P.x - E.e = u at *
    field_simp
    linear_combination (8 * (E.b + u ^ 2) * P.y ^ 2 -
      4 * E.b * u * (3 * E.b + 6 * E.e * u + u ^ 2) - 4 * u ^ 3 * (3 * u ^ 2 + 6 * E.e * u + E.b) +
      8 * (E.b + u ^ 2) * u * (u ^ 2 + 3 * E.e * u + E.b)) * hfactor

end OddPoint

/-! ## Doubling without division -/

/-- Coordinates of the point `(X / Z², Y / Z³)`. -/
structure Jacobian (K : Type*) where
  X : K
  Y : K
  Z : K

/-- The double, in additions and multiplications only. -/
def Jacobian.double {K : Type*} [Add K] [Sub K] [Mul K] (A : K) (j : Jacobian K) : Jacobian K :=
  let yy := j.Y * j.Y
  let xyy := j.X * yy
  let s := xyy + xyy + (xyy + xyy)
  let xx := j.X * j.X
  let zz := j.Z * j.Z
  let m := xx + xx + xx + A * (zz * zz)
  let x := m * m - (s + s)
  let y4 := yy * yy
  let y8 := y4 + y4 + (y4 + y4)
  let yz := j.Y * j.Z
  { X := x, Y := m * (s - x) - (y8 + y8), Z := yz + yz }

structure Jacobian.Of (j : Jacobian K) (P : E.OddPoint) : Prop where
  Z_ne : j.Z ≠ 0
  X_eq : j.X = P.x * j.Z ^ 2
  Y_eq : j.Y = P.y * j.Z ^ 3

theorem Jacobian.Of.double {j : Jacobian K} {P : E.OddPoint} (h : j.Of P) :
    (j.double E.A).Of P.double := by
  have htwo := E.two_ne_zero
  have hy := P.y_ne_zero
  have hz := h.Z_ne
  refine ⟨?_, ?_, ?_⟩
  · simp only [Jacobian.double, h.Y_eq]
    rw [← two_mul]
    exact mul_ne_zero htwo (mul_ne_zero (mul_ne_zero hy (pow_ne_zero 3 hz)) hz)
  · simp only [Jacobian.double, h.X_eq, h.Y_eq, OddPoint.double]
    field_simp
    ring
  · simp only [Jacobian.double, h.X_eq, h.Y_eq, OddPoint.double]
    field_simp
    ring

theorem Jacobian.Of.iterate {j : Jacobian K} {P : E.OddPoint} (h : j.Of P) (n : ℕ) :
    ((Jacobian.double E.A)^[n] j).Of (OddPoint.double^[n] P) := by
  induction n with
  | zero => exact h
  | succ n ih =>
    rw [Function.iterate_succ_apply', Function.iterate_succ_apply']
    exact ih.double

/-! ## The subgroup of square `u` -/

/-- Infinity or a point with a non-zero square `u`. -/
def IsSquarePoint : E.curve.Point → Prop
  | .zero => True
  | .some x _ _ => x ≠ E.e ∧ IsSquare (x - E.e)

theorem chord_isSquarePoint (h₁ : E.OnCurve x₁ y₁) (h₂ : E.OnCurve x₂ y₂) (hx : x₁ ≠ x₂)
    (hs₁ : IsSquarePoint h₁.point) (hs₂ : IsSquarePoint h₂.point) :
    IsSquarePoint (h₁.point + h₂.point) := by
  obtain ⟨h₃, hsum⟩ := add_point h₁ h₂ hx rfl rfl
  obtain ⟨hx₁, r₁, hr₁⟩ := hs₁
  obtain ⟨hx₂, r₂, hr₂⟩ := hs₂
  have hu₁ : x₁ - E.e ≠ 0 := sub_ne_zero.mpr hx₁
  have hu₂ : x₂ - E.e ≠ 0 := sub_ne_zero.mpr hx₂
  have hr₁' : r₁ ≠ 0 := by
    rintro rfl
    exact hu₁ (by rw [hr₁, mul_zero])
  have hr₂' : r₂ ≠ 0 := by
    rintro rfl
    exact hu₂ (by rw [hr₂, mul_zero])
  have hmul := chord_u_mul h₁ h₂ hx
  rw [hsum]
  refine ⟨?_, ?_⟩
  · intro hzero
    rw [hzero, sub_self, mul_zero] at hmul
    have hnum : y₁ * (x₂ - E.e) - y₂ * (x₁ - E.e) = 0 := by
      rcases div_eq_zero_iff.mp (pow_eq_zero_iff (by decide) |>.mp hmul.symm) with hnum | hden
      · exact hnum
      · exact absurd (sub_eq_zero.mp hden).symm hx
    have hb := mul_eq_b_of_line h₁ h₂ hx hx₁ hx₂ (sub_eq_zero.mp hnum)
    refine E.not_isSquare_b ⟨r₁ * r₂, ?_⟩
    change E.b = _
    rw [← hb, hr₁, hr₂]
    ring
  · refine ⟨(y₁ * (x₂ - E.e) - y₂ * (x₁ - E.e)) / (x₂ - x₁) / (r₁ * r₂), ?_⟩
    have hprod : r₁ * r₁ * (r₂ * r₂) ≠ 0 :=
      mul_ne_zero (mul_ne_zero hr₁' hr₁') (mul_ne_zero hr₂' hr₂')
    rw [hr₁, hr₂] at hmul
    rw [← mul_right_inj' hprod, hmul, hr₁, hr₂]
    field_simp

theorem tangent_isSquarePoint (h : E.OnCurve x y) (hx : x ≠ E.e) :
    IsSquarePoint (h.point + h.point) := by
  have hy := h.y_ne_zero hx
  obtain ⟨h₃, hsum⟩ := double_point h hy rfl rfl
  rw [hsum]
  refine ⟨double_x_ne h hy, ?_⟩
  rw [double_u_eq h hy, pow_two]
  exact ⟨_, rfl⟩

theorem isSquarePoint_add {P Q : E.curve.Point} (hP : IsSquarePoint P) (hQ : IsSquarePoint Q) :
    IsSquarePoint (P + Q) := by
  cases P with
  | zero => rwa [← Point.zero_def, zero_add]
  | some x₁ y₁ hns₁ =>
    cases Q with
    | zero => rwa [← Point.zero_def, add_zero]
    | some x₂ y₂ hns₂ =>
      have h₁ : E.OnCurve x₁ y₁ := equation_iff.mp hns₁.1
      have h₂ : E.OnCurve x₂ y₂ := equation_iff.mp hns₂.1
      by_cases hx : x₁ = x₂
      · subst hx
        have hcases : (Point.some x₁ y₁ hns₁ : E.curve.Point) = .some x₁ y₂ hns₂ ∨
            (Point.some x₁ y₁ hns₁ : E.curve.Point) = -.some x₁ y₂ hns₂ := Point.X_eq_iff.mp rfl
        rcases hcases with hsame | hopp
        · rw [hsame]
          exact tangent_isSquarePoint h₂ hQ.1
        · rw [hopp, neg_add_cancel]
          trivial
      · exact chord_isSquarePoint h₁ h₂ hx hP hQ

variable (E) in
/-- The points with square `u`. -/
def squares : AddSubgroup E.curve.Point where
  carrier := {P | IsSquarePoint P}
  zero_mem' := trivial
  add_mem' := isSquarePoint_add
  neg_mem' := by
    rintro (_ | _) hP
    · trivial
    · exact hP

end DoubleOdd

end Lib
