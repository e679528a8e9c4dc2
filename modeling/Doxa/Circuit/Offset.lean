import Doxa.Circuit.Forgery

/-!
# The constants of the chain

The generator has a square `u`, and the constant the last gate adds is `-2^319` times the
offset the chain starts with. The 319 doublings are evaluated in Jacobian coordinates, on
natural numbers reduced modulo the field order.
-/

namespace Doxa.Circuit

open Lib

/-- A square root of the generator's `u`. -/
def GENERATOR_U_SQRT : QuinticExtension :=
  ⟨4215595334465395344, 2747986800082865065, 4201059493875284921, 7495175121212972362,
    3924537739000922156⟩

theorem generator_mem : generator ∈ ecgfp5.squares := by
  have hne : GENERATOR_X ≠ ECGFP5_A_DIV_3 := by decide +kernel
  have hsq : GENERATOR_X - ECGFP5_A_DIV_3 = GENERATOR_U_SQRT * GENERATOR_U_SQRT := by
    decide +kernel
  exact ⟨hne, GENERATOR_U_SQRT, hsq⟩

theorem offsetDouble_point (n : ℕ) : (offsetDouble n).point = 2 ^ n • offsetPoint.point := by
  induction n with
  | zero =>
    rw [pow_zero, one_nsmul]
    rfl
  | succ n ih =>
    rw [offsetDouble_succ, DoubleOdd.OddPoint.double_point_eq, ih, pow_succ', mul_nsmul', two_nsmul]

/-- The offset in Jacobian coordinates. -/
def offsetJacobian : DoubleOdd.Jacobian QuinticExtension where
  X := OFFSET_X
  Y := OFFSET_Y
  Z := 1

theorem offsetJacobian_of : offsetJacobian.Of offsetPoint where
  Z_ne := one_ne_zero
  X_eq := by simp only [offsetJacobian, offsetPoint, one_pow, mul_one]
  Y_eq := by simp only [offsetJacobian, offsetPoint, one_pow, mul_one]

/-! ## Evaluation -/

/-- Five natural numbers that stand for the coordinates of a field element. -/
structure Residues where
  c0 : ℕ
  c1 : ℕ
  c2 : ℕ
  c3 : ℕ
  c4 : ℕ
  deriving DecidableEq

namespace Residues

def subMod (a b : ℕ) : ℕ := (a + (ORDER - b % ORDER)) % ORDER

instance : Add Residues :=
  ⟨fun a b => ⟨(a.c0 + b.c0) % ORDER, (a.c1 + b.c1) % ORDER, (a.c2 + b.c2) % ORDER,
    (a.c3 + b.c3) % ORDER, (a.c4 + b.c4) % ORDER⟩⟩

instance : Sub Residues :=
  ⟨fun a b => ⟨subMod a.c0 b.c0, subMod a.c1 b.c1, subMod a.c2 b.c2, subMod a.c3 b.c3,
    subMod a.c4 b.c4⟩⟩

instance : Mul Residues := ⟨fun a b =>
  ⟨(a.c0 * b.c0 + 3 * (a.c1 * b.c4 + a.c2 * b.c3 + a.c3 * b.c2 + a.c4 * b.c1)) % ORDER,
    (a.c0 * b.c1 + a.c1 * b.c0 + 3 * (a.c2 * b.c4 + a.c3 * b.c3 + a.c4 * b.c2)) % ORDER,
    (a.c0 * b.c2 + a.c1 * b.c1 + a.c2 * b.c0 + 3 * (a.c3 * b.c4 + a.c4 * b.c3)) % ORDER,
    (a.c0 * b.c3 + a.c1 * b.c2 + a.c2 * b.c1 + a.c3 * b.c0 + 3 * a.c4 * b.c4) % ORDER,
    (a.c0 * b.c4 + a.c1 * b.c3 + a.c2 * b.c2 + a.c3 * b.c1 + a.c4 * b.c0) % ORDER⟩⟩

/-- The field element that the numbers stand for. -/
def toField (a : Residues) : QuinticExtension := ⟨a.c0, a.c1, a.c2, a.c3, a.c4⟩

def ofField (x : QuinticExtension) : Residues :=
  ⟨x.c0.val, x.c1.val, x.c2.val, x.c3.val, x.c4.val⟩

theorem toField_ofField (x : QuinticExtension) : (ofField x).toField = x := by
  have hval (c : F) : ((c.val : ℕ) : F) = c := ZMod.natCast_zmod_val c
  ext <;> exact hval _

theorem cast_mod (n : ℕ) : ((n % ORDER : ℕ) : F) = n := ZMod.natCast_mod n ORDER

theorem cast_subMod (a b : ℕ) : ((subMod a b : ℕ) : F) = a - b := by
  have hle : b % ORDER ≤ ORDER := (Nat.mod_lt b (by decide)).le
  have hzero : ((ORDER : ℕ) : F) = 0 := ZMod.natCast_self ORDER
  rw [subMod, cast_mod, Nat.cast_add, Nat.cast_sub hle, cast_mod, hzero, zero_sub, sub_eq_add_neg]

theorem toField_add (a b : Residues) : (a + b).toField = a.toField + b.toField := by
  ext <;> exact (cast_mod _).trans (Nat.cast_add _ _)

theorem toField_sub (a b : Residues) : (a - b).toField = a.toField - b.toField := by
  ext <;> exact cast_subMod _ _

theorem toField_mul (a b : Residues) : (a * b).toField = a.toField * b.toField := by
  ext <;> refine (cast_mod _).trans ?_ <;> push_cast <;> rfl

/-- A Jacobian point over the field, from its residues. -/
def toJacobian (j : DoubleOdd.Jacobian Residues) : DoubleOdd.Jacobian QuinticExtension where
  X := j.X.toField
  Y := j.Y.toField
  Z := j.Z.toField

theorem toJacobian_double (A : Residues) (j : DoubleOdd.Jacobian Residues) :
    toJacobian (j.double A) = (toJacobian j).double A.toField := by
  simp only [toJacobian, DoubleOdd.Jacobian.double, toField_add, toField_sub, toField_mul]

theorem toJacobian_iterate (A : Residues) (j : DoubleOdd.Jacobian Residues) (n : ℕ) :
    toJacobian ((DoubleOdd.Jacobian.double A)^[n] j) =
      (DoubleOdd.Jacobian.double A.toField)^[n] (toJacobian j) := by
  induction n with
  | zero => rfl
  | succ n ih =>
    rw [Function.iterate_succ_apply', Function.iterate_succ_apply', toJacobian_double, ih]

/-- The residues of the offset. -/
def offset : DoubleOdd.Jacobian Residues where
  X := ofField OFFSET_X
  Y := ofField OFFSET_Y
  Z := ofField 1

/-- The offset after 319 doublings. -/
def offset319 : DoubleOdd.Jacobian Residues :=
  (DoubleOdd.Jacobian.double (ofField ECGFP5_CAP_A))^[319] offset

theorem offset319_eq :
    offset319.X = ofField OFFSET_NEG_319_X * (offset319.Z * offset319.Z) ∧
      offset319.Y =
        ofField (-OFFSET_NEG_319_Y) * (offset319.Z * offset319.Z * offset319.Z) := by
  decide +kernel

theorem toJacobian_offset319 :
    toJacobian offset319 = (DoubleOdd.Jacobian.double ECGFP5_CAP_A)^[319] offsetJacobian := by
  have hstart : toJacobian offset = offsetJacobian := by
    simp only [toJacobian, offset, offsetJacobian, toField_ofField]
  rw [offset319, toJacobian_iterate, toField_ofField, hstart]

end Residues

theorem offsetJacobian_iterate :
    ((DoubleOdd.Jacobian.double ECGFP5_CAP_A)^[319] offsetJacobian).X =
        OFFSET_NEG_319_X * ((DoubleOdd.Jacobian.double ECGFP5_CAP_A)^[319] offsetJacobian).Z ^ 2 ∧
      ((DoubleOdd.Jacobian.double ECGFP5_CAP_A)^[319] offsetJacobian).Y =
        -OFFSET_NEG_319_Y *
          ((DoubleOdd.Jacobian.double ECGFP5_CAP_A)^[319] offsetJacobian).Z ^ 3 := by
  obtain ⟨hX, hY⟩ := Residues.offset319_eq
  rw [← Residues.toJacobian_offset319]
  constructor
  · refine (congrArg Residues.toField hX).trans ?_
    rw [Residues.toField_mul, Residues.toField_mul, Residues.toField_ofField, ← pow_two]
    rfl
  · refine (congrArg Residues.toField hY).trans ?_
    rw [Residues.toField_mul, Residues.toField_mul, Residues.toField_mul,
      Residues.toField_ofField, ← pow_three']
    rfl

theorem offsetDouble_319 :
    (offsetDouble 319).x = OFFSET_NEG_319_X ∧ (offsetDouble 319).y = -OFFSET_NEG_319_Y := by
  have hof := offsetJacobian_of.iterate 319
  obtain ⟨hX, hY⟩ := offsetJacobian_iterate
  constructor
  · exact mul_right_cancel₀ (pow_ne_zero 2 hof.Z_ne) (hof.X_eq.symm.trans hX)
  · exact mul_right_cancel₀ (pow_ne_zero 3 hof.Z_ne) (hof.Y_eq.symm.trans hY)

end Doxa.Circuit
