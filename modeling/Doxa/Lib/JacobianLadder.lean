import Doxa.Lib.DoubleOdd

/-!
# Multiples of a point without division

Doubling and the addition of a fixed point in Jacobian coordinates. Each operation multiplies the
third coordinate by what the affine formula divides by, so a run that ends with a third coordinate
other than zero met no exceptional case, and its result represents the multiple.
-/

namespace Lib.DoubleOdd

/-- The sum with the finite point `(x, y)`, in additions and multiplications only. -/
def Jacobian.addMixed {K : Type*} [Add K] [Sub K] [Mul K] (x y : K) (j : Jacobian K) :
    Jacobian K :=
  let zz := j.Z * j.Z
  let h := x * zz - j.X
  let r := y * (zz * j.Z) - j.Y
  let hh := h * h
  let hhh := h * hh
  let v := j.X * hh
  let x3 := r * r - hhh - (v + v)
  { X := x3, Y := r * (v - x3) - j.Y * hhh, Z := j.Z * h }

/-- A step of double-and-add. -/
def Jacobian.ladderStep {K : Type*} [Add K] [Sub K] [Mul K] (A x y : K) (b : Bool)
    (j : Jacobian K) : Jacobian K :=
  if b then (j.double A).addMixed x y else j.double A

/-- Double-and-add over the bits below `i`, the highest first. -/
def Jacobian.ladder {K : Type*} [Add K] [Sub K] [Mul K] (A x y : K) (bits : ℕ → Bool) :
    ℕ → Jacobian K → Jacobian K
  | 0, j => j
  | i + 1, j => ladder A x y bits i (j.ladderStep A x y (bits i))

variable {K : Type*} [Field K] {E : DoubleOdd K}

/-- The coordinates are those of a finite point. -/
structure Jacobian.Represents (E : DoubleOdd K) (j : Jacobian K) (P : E.curve.Point) : Prop where
  Z_ne : j.Z ≠ 0
  point : ∃ (x y : K) (h : E.OnCurve x y), j.X = x * j.Z ^ 2 ∧ j.Y = y * j.Z ^ 3 ∧ h.point = P

/-- Coordinates represent one point only. -/
theorem Jacobian.Represents.unique {j : Jacobian K} {P Q : E.curve.Point}
    (hP : j.Represents E P) (hQ : j.Represents E Q) : P = Q := by
  obtain ⟨hZ, x₁, y₁, h₁, hX₁, hY₁, rfl⟩ := hP
  obtain ⟨-, x₂, y₂, h₂, hX₂, hY₂, rfl⟩ := hQ
  refine point_congr h₁ h₂ ?_ ?_
  · exact mul_right_cancel₀ (pow_ne_zero 2 hZ) (hX₁.symm.trans hX₂)
  · exact mul_right_cancel₀ (pow_ne_zero 3 hZ) (hY₁.symm.trans hY₂)

section Steps

variable [DecidableEq K] {j : Jacobian K} {P : E.curve.Point} {x y : K}

theorem Jacobian.Represents.double (hP : j.Represents E P) (hz : (j.double E.A).Z ≠ 0) :
    (j.double E.A).Represents E (P + P) := by
  obtain ⟨hZ, x₁, y₁, h, hX, hY, rfl⟩ := hP
  have hy : y₁ ≠ 0 := by
    rintro rfl
    refine hz ?_
    simp only [Jacobian.double, hY, zero_mul, add_zero]
  have hx : x₁ ≠ E.e := fun hx => hy (h.y_eq_zero_iff.mpr hx)
  have hof : j.Of (⟨x₁, y₁, h, hx⟩ : E.OddPoint) := ⟨hZ, hX, hY⟩
  have hdouble := hof.double
  exact ⟨hz, _, _, OddPoint.onCurve _, hdouble.X_eq, hdouble.Y_eq, OddPoint.double_point_eq _⟩

theorem Jacobian.Represents.addMixed (hP : j.Represents E P) (hQ : E.OnCurve x y)
    (hz : (j.addMixed x y).Z ≠ 0) : (j.addMixed x y).Represents E (P + hQ.point) := by
  obtain ⟨hZ, x₁, y₁, h, hX, hY, rfl⟩ := hP
  have hdiff : x * (j.Z * j.Z) - j.X ≠ 0 := (mul_ne_zero_iff.mp hz).2
  have hx : x₁ ≠ x := by
    rintro rfl
    refine hdiff ?_
    rw [hX]
    ring
  have hden : x - x₁ ≠ 0 := sub_ne_zero.mpr hx.symm
  obtain ⟨h₃, hsum⟩ := add_point h hQ hx rfl rfl
  refine ⟨hz, _, _, h₃, ?_, ?_, hsum.symm⟩
  · simp only [Jacobian.addMixed, hX, hY]
    field_simp
    ring
  · simp only [Jacobian.addMixed, hX, hY]
    field_simp
    ring

theorem Jacobian.Represents.ladderStep {b : Bool} (hP : j.Represents E P) (hQ : E.OnCurve x y)
    (hz : (j.ladderStep E.A x y b).Z ≠ 0) : (j.ladderStep E.A x y b).Represents E
      (if b then P + P + hQ.point else P + P) := by
  cases b with
  | false => exact hP.double hz
  | true =>
    have hz' : ((j.double E.A).addMixed x y).Z ≠ 0 := hz
    exact (hP.double (mul_ne_zero_iff.mp hz').1).addMixed hQ hz'

omit [DecidableEq K] in
/-- A factor of the last third coordinate. -/
theorem Jacobian.ladder_Z {A : K} {bits : ℕ → Bool} {i : ℕ}
    (hz : (j.ladder A x y bits i).Z ≠ 0) : j.Z ≠ 0 := by
  induction i generalizing j with
  | zero => exact hz
  | succ i ih =>
    have hstep : (j.ladderStep A x y (bits i)).Z ≠ 0 := ih hz
    rintro hzero
    refine hstep ?_
    unfold Jacobian.ladderStep
    split <;> simp [Jacobian.addMixed, Jacobian.double, hzero]

end Steps

end Lib.DoubleOdd
