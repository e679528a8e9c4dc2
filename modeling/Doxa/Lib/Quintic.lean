import Doxa.Lib.Numerals
import Mathlib.RingTheory.AdjoinRoot
import Mathlib.RingTheory.IntegralDomain
import Mathlib.FieldTheory.Finite.Basic

/-!
# Quintic extensions by a fifth root

`Quintic R w` is `R[z]/(z⁵ - w)` in coordinates. Over a finite field in which `X⁵ - w` is
irreducible it is a field. A primitive fifth root of unity of the base field gives the
automorphism `twist`, and an element whose norm is no square in the base field is no
square in the extension.
-/

namespace Lib

open Polynomial

/-- `c0 + c1 z + c2 z² + c3 z³ + c4 z⁴` with `z⁵ = w`. -/
@[ext] structure Quintic (R : Type*) (w : R) where
  c0 : R
  c1 : R
  c2 : R
  c3 : R
  c4 : R
  deriving DecidableEq

namespace Quintic

variable {R : Type*} [CommRing R] {w : R}

instance : Zero (Quintic R w) := ⟨⟨0, 0, 0, 0, 0⟩⟩
instance : One (Quintic R w) := ⟨⟨1, 0, 0, 0, 0⟩⟩

instance : Add (Quintic R w) :=
  ⟨fun a b => ⟨a.c0 + b.c0, a.c1 + b.c1, a.c2 + b.c2, a.c3 + b.c3, a.c4 + b.c4⟩⟩

instance : Sub (Quintic R w) :=
  ⟨fun a b => ⟨a.c0 - b.c0, a.c1 - b.c1, a.c2 - b.c2, a.c3 - b.c3, a.c4 - b.c4⟩⟩

instance : Neg (Quintic R w) := ⟨fun a => ⟨-a.c0, -a.c1, -a.c2, -a.c3, -a.c4⟩⟩

instance : Mul (Quintic R w) := ⟨fun a b =>
  ⟨a.c0 * b.c0 + w * (a.c1 * b.c4 + a.c2 * b.c3 + a.c3 * b.c2 + a.c4 * b.c1),
    a.c0 * b.c1 + a.c1 * b.c0 + w * (a.c2 * b.c4 + a.c3 * b.c3 + a.c4 * b.c2),
    a.c0 * b.c2 + a.c1 * b.c1 + a.c2 * b.c0 + w * (a.c3 * b.c4 + a.c4 * b.c3),
    a.c0 * b.c3 + a.c1 * b.c2 + a.c2 * b.c1 + a.c3 * b.c0 + w * a.c4 * b.c4,
    a.c0 * b.c4 + a.c1 * b.c3 + a.c2 * b.c2 + a.c3 * b.c1 + a.c4 * b.c0⟩⟩

section Coordinates

variable (a b : Quintic R w)

@[simp] theorem zero_c0 : (0 : Quintic R w).c0 = 0 := rfl
@[simp] theorem zero_c1 : (0 : Quintic R w).c1 = 0 := rfl
@[simp] theorem zero_c2 : (0 : Quintic R w).c2 = 0 := rfl
@[simp] theorem zero_c3 : (0 : Quintic R w).c3 = 0 := rfl
@[simp] theorem zero_c4 : (0 : Quintic R w).c4 = 0 := rfl
@[simp] theorem one_c0 : (1 : Quintic R w).c0 = 1 := rfl
@[simp] theorem one_c1 : (1 : Quintic R w).c1 = 0 := rfl
@[simp] theorem one_c2 : (1 : Quintic R w).c2 = 0 := rfl
@[simp] theorem one_c3 : (1 : Quintic R w).c3 = 0 := rfl
@[simp] theorem one_c4 : (1 : Quintic R w).c4 = 0 := rfl
@[simp] theorem add_c0 : (a + b).c0 = a.c0 + b.c0 := rfl
@[simp] theorem add_c1 : (a + b).c1 = a.c1 + b.c1 := rfl
@[simp] theorem add_c2 : (a + b).c2 = a.c2 + b.c2 := rfl
@[simp] theorem add_c3 : (a + b).c3 = a.c3 + b.c3 := rfl
@[simp] theorem add_c4 : (a + b).c4 = a.c4 + b.c4 := rfl
@[simp] theorem sub_c0 : (a - b).c0 = a.c0 - b.c0 := rfl
@[simp] theorem sub_c1 : (a - b).c1 = a.c1 - b.c1 := rfl
@[simp] theorem sub_c2 : (a - b).c2 = a.c2 - b.c2 := rfl
@[simp] theorem sub_c3 : (a - b).c3 = a.c3 - b.c3 := rfl
@[simp] theorem sub_c4 : (a - b).c4 = a.c4 - b.c4 := rfl
@[simp] theorem neg_c0 : (-a).c0 = -a.c0 := rfl
@[simp] theorem neg_c1 : (-a).c1 = -a.c1 := rfl
@[simp] theorem neg_c2 : (-a).c2 = -a.c2 := rfl
@[simp] theorem neg_c3 : (-a).c3 = -a.c3 := rfl
@[simp] theorem neg_c4 : (-a).c4 = -a.c4 := rfl

@[simp] theorem mul_c0 : (a * b).c0 =
    a.c0 * b.c0 + w * (a.c1 * b.c4 + a.c2 * b.c3 + a.c3 * b.c2 + a.c4 * b.c1) := rfl

@[simp] theorem mul_c1 : (a * b).c1 =
    a.c0 * b.c1 + a.c1 * b.c0 + w * (a.c2 * b.c4 + a.c3 * b.c3 + a.c4 * b.c2) := rfl

@[simp] theorem mul_c2 : (a * b).c2 =
    a.c0 * b.c2 + a.c1 * b.c1 + a.c2 * b.c0 + w * (a.c3 * b.c4 + a.c4 * b.c3) := rfl

@[simp] theorem mul_c3 : (a * b).c3 =
    a.c0 * b.c3 + a.c1 * b.c2 + a.c2 * b.c1 + a.c3 * b.c0 + w * a.c4 * b.c4 := rfl

@[simp] theorem mul_c4 : (a * b).c4 =
    a.c0 * b.c4 + a.c1 * b.c3 + a.c2 * b.c2 + a.c3 * b.c1 + a.c4 * b.c0 := rfl

end Coordinates

instance : CommRing (Quintic R w) where
  add_assoc a b c := by ext <;> simp [add_assoc]
  zero_add a := by ext <;> simp
  add_zero a := by ext <;> simp
  add_comm a b := by ext <;> simp [add_comm]
  neg_add_cancel a := by ext <;> simp
  sub_eq_add_neg a b := by ext <;> simp [sub_eq_add_neg]
  mul_assoc a b c := by ext <;> simp <;> ring
  one_mul a := by ext <;> simp
  mul_one a := by ext <;> simp
  mul_comm a b := by ext <;> simp <;> ring
  left_distrib a b c := by ext <;> simp <;> ring
  right_distrib a b c := by ext <;> simp <;> ring
  zero_mul a := by ext <;> simp
  mul_zero a := by ext <;> simp
  nsmul := nsmulRec
  zsmul := zsmulRec

/-- The embedding of the base ring. -/
def ofBase : R →+* Quintic R w where
  toFun r := ⟨r, 0, 0, 0, 0⟩
  map_zero' := rfl
  map_one' := rfl
  map_add' a b := by ext <;> simp
  map_mul' a b := by ext <;> simp

@[simp] theorem ofBase_c0 (r : R) : (ofBase r : Quintic R w).c0 = r := rfl
@[simp] theorem ofBase_c1 (r : R) : (ofBase r : Quintic R w).c1 = 0 := rfl
@[simp] theorem ofBase_c2 (r : R) : (ofBase r : Quintic R w).c2 = 0 := rfl
@[simp] theorem ofBase_c3 (r : R) : (ofBase r : Quintic R w).c3 = 0 := rfl
@[simp] theorem ofBase_c4 (r : R) : (ofBase r : Quintic R w).c4 = 0 := rfl

theorem ofBase_injective : Function.Injective (ofBase : R → Quintic R w) := fun _ _ h =>
  congrArg c0 h

/-! ## The quotient of the polynomial ring -/

/-- The representative of degree below five. -/
noncomputable def toPoly (a : Quintic R w) : R[X] :=
  C a.c0 + C a.c1 * X + C a.c2 * X ^ 2 + C a.c3 * X ^ 3 + C a.c4 * X ^ 4

theorem toPoly_degree_lt [Nontrivial R] (a : Quintic R w) : a.toPoly.degree < 5 := by
  unfold toPoly
  compute_degree!

theorem toPoly_injective : Function.Injective (toPoly : Quintic R w → R[X]) := by
  intro a b h
  have hc : ∀ n, a.toPoly.coeff n = b.toPoly.coeff n := fun n => congrArg (coeff · n) h
  have h0 := hc 0
  have h1 := hc 1
  have h2 := hc 2
  have h3 := hc 3
  have h4 := hc 4
  simp [toPoly, coeff_X, coeff_C, coeff_X_pow] at h0 h1 h2 h3 h4
  exact Quintic.ext h0 h1 h2 h3 h4

/-- The map to `R[X]/(X⁵ - w)`. -/
noncomputable def toAdjoinRoot : Quintic R w →+* AdjoinRoot (X ^ 5 - C w : R[X]) where
  toFun a := AdjoinRoot.mk _ a.toPoly
  map_zero' := by simp [toPoly]
  map_one' := by simp [toPoly]
  map_add' a b := by
    have hpoly : (a + b).toPoly = a.toPoly + b.toPoly := by
      simp [toPoly]
      ring
    rw [hpoly, map_add]
  map_mul' a b := by
    rw [← map_mul, AdjoinRoot.mk_eq_mk]
    refine ⟨-(C (a.c1 * b.c4 + a.c2 * b.c3 + a.c3 * b.c2 + a.c4 * b.c1) +
      C (a.c2 * b.c4 + a.c3 * b.c3 + a.c4 * b.c2) * X +
      C (a.c3 * b.c4 + a.c4 * b.c3) * X ^ 2 + C (a.c4 * b.c4) * X ^ 3), ?_⟩
    simp [toPoly]
    ring

theorem toAdjoinRoot_injective [Nontrivial R] :
    Function.Injective (toAdjoinRoot : Quintic R w → _) := by
  rw [injective_iff_map_eq_zero]
  intro a ha
  have hdvd : (X ^ 5 - C w : R[X]) ∣ a.toPoly := AdjoinRoot.mk_eq_zero.mp ha
  have hmonic : (X ^ 5 - C w : R[X]).Monic := monic_X_pow_sub_C w (by decide)
  have hdeg : a.toPoly.degree < (X ^ 5 - C w : R[X]).degree := by
    rw [degree_X_pow_sub_C (by decide)]
    exact a.toPoly_degree_lt
  have hzero : a.toPoly = 0 := by
    by_contra hne
    exact hmonic.not_dvd_of_degree_lt hne hdeg hdvd
  have hzero' : a.toPoly = (0 : Quintic R w).toPoly := by
    rw [hzero]
    simp [toPoly]
  exact toPoly_injective hzero'

/-! ## Irreducible `X⁵ - w` -/

section Field

variable {K : Type*} [Field K] {w : K}

theorem isDomain (hw : Irreducible (X ^ 5 - C w : K[X])) : IsDomain (Quintic K w) := by
  have : Fact (Irreducible (X ^ 5 - C w : K[X])) := ⟨hw⟩
  exact Function.Injective.isDomain toAdjoinRoot toAdjoinRoot_injective

instance [Fintype K] : Finite (Quintic K w) :=
  Finite.of_injective (fun a : Quintic K w => (a.c0, a.c1, a.c2, a.c3, a.c4)) fun a b h => by
    simp only [Prod.mk.injEq] at h
    exact Quintic.ext h.1 h.2.1 h.2.2.1 h.2.2.2.1 h.2.2.2.2

end Field

/-! ## Norms -/

section Norm

variable {ζ : R}

/-- `z ↦ ζ z` for a fifth root of unity. -/
def twist (hζ : ζ ^ 5 = 1) : Quintic R w →+* Quintic R w where
  toFun a := ⟨a.c0, ζ * a.c1, ζ ^ 2 * a.c2, ζ ^ 3 * a.c3, ζ ^ 4 * a.c4⟩
  map_zero' := by ext <;> simp
  map_one' := by ext <;> simp
  map_add' a b := by ext <;> simp <;> ring
  map_mul' a b := by
    ext <;> simp
    · linear_combination
        -(w * a.c1 * b.c4 + w * a.c2 * b.c3 + w * a.c3 * b.c2 + w * a.c4 * b.c1) * hζ
    · linear_combination -(w * ζ * (a.c2 * b.c4 + a.c3 * b.c3 + a.c4 * b.c2)) * hζ
    · linear_combination -(w * ζ ^ 2 * (a.c3 * b.c4 + a.c4 * b.c3)) * hζ
    · linear_combination -(w * ζ ^ 3 * a.c4 * b.c4) * hζ
    · ring

/-- The product of the five conjugates. -/
def norm (hζ : ζ ^ 5 = 1) (a : Quintic R w) : Quintic R w :=
  a * twist hζ a * twist hζ (twist hζ a) * twist hζ (twist hζ (twist hζ a)) *
    twist hζ (twist hζ (twist hζ (twist hζ a)))

theorem twist_five (hζ : ζ ^ 5 = 1) (a : Quintic R w) :
    twist hζ (twist hζ (twist hζ (twist hζ (twist hζ a)))) = a := by
  ext <;> simp only [twist, RingHom.coe_mk, MonoidHom.coe_mk, OneHom.coe_mk]
  · linear_combination a.c1 * hζ
  · linear_combination a.c2 * (ζ ^ 5 + 1) * hζ
  · linear_combination a.c3 * (ζ ^ 10 + ζ ^ 5 + 1) * hζ
  · linear_combination a.c4 * (ζ ^ 15 + ζ ^ 10 + ζ ^ 5 + 1) * hζ

theorem norm_mul (hζ : ζ ^ 5 = 1) (a b : Quintic R w) :
    norm hζ (a * b) = norm hζ a * norm hζ b := by
  simp only [norm, map_mul]
  ring

theorem twist_norm (hζ : ζ ^ 5 = 1) (a : Quintic R w) : twist hζ (norm hζ a) = norm hζ a := by
  simp only [norm, map_mul, twist_five]
  ring

theorem twist_injective (hζ : ζ ^ 5 = 1) : Function.Injective (twist hζ : Quintic R w → _) := by
  refine Function.LeftInverse.injective
    (g := fun a => twist hζ (twist hζ (twist hζ (twist hζ a)))) ?_
  exact twist_five hζ

theorem norm_ne_zero [IsDomain (Quintic R w)] (hζ : ζ ^ 5 = 1) {a : Quintic R w} (ha : a ≠ 0) :
    norm hζ a ≠ 0 := by
  have htwist : ∀ {b : Quintic R w}, b ≠ 0 → twist hζ b ≠ 0 := fun hb =>
    (map_ne_zero_iff _ (twist_injective hζ)).mpr hb
  have h1 := htwist ha
  have h2 := htwist h1
  have h3 := htwist h2
  exact mul_ne_zero (mul_ne_zero (mul_ne_zero (mul_ne_zero ha h1) h2) h3) (htwist h3)

variable [IsDomain R]

/-- Only base elements are fixed by a primitive twist. -/
theorem eq_ofBase_of_twist_eq (hζ : ζ ^ 5 = 1) (hprim : ζ ≠ 1) {a : Quintic R w}
    (ha : twist hζ a = a) : a = ofBase a.c0 := by
  have hcoord : ∀ {n : ℕ} {r : R}, ζ ^ n ≠ 1 → ζ ^ n * r = r → r = 0 := by
    intro n r hn hr
    have hprod : (ζ ^ n - 1) * r = 0 := by linear_combination hr
    exact (mul_eq_zero.mp hprod).resolve_left (sub_ne_zero.mpr hn)
  have hpow : ∀ n, n.Coprime 5 → ζ ^ n ≠ 1 := by
    intro n hn hone
    have hdvd : orderOf ζ ∣ Nat.gcd n 5 :=
      Nat.dvd_gcd (orderOf_dvd_of_pow_eq_one hone) (orderOf_dvd_of_pow_eq_one hζ)
    rw [hn.gcd_eq_one, Nat.dvd_one, orderOf_eq_one_iff] at hdvd
    exact hprim hdvd
  have h1 : ζ ^ 1 * a.c1 = a.c1 := by rw [pow_one]; exact congrArg c1 ha
  have h2 : ζ ^ 2 * a.c2 = a.c2 := congrArg c2 ha
  have h3 : ζ ^ 3 * a.c3 = a.c3 := congrArg c3 ha
  have h4 : ζ ^ 4 * a.c4 = a.c4 := congrArg c4 ha
  exact Quintic.ext rfl (hcoord (hpow 1 (by decide)) h1) (hcoord (hpow 2 (by decide)) h2)
    (hcoord (hpow 3 (by decide)) h3) (hcoord (hpow 4 (by decide)) h4)

/-- The norm of a square is a square of the base ring. -/
theorem not_isSquare_of_norm (hζ : ζ ^ 5 = 1) (hprim : ζ ≠ 1) {a : Quintic R w} {n : R}
    (hnorm : norm hζ a = ofBase n) (hn : ¬ IsSquare n) : ¬ IsSquare a := by
  rintro ⟨r, rfl⟩
  have hbase : norm hζ r = ofBase (norm hζ r).c0 :=
    eq_ofBase_of_twist_eq hζ hprim (twist_norm hζ r)
  rw [norm_mul, hbase, ← map_mul] at hnorm
  exact hn ⟨_, (ofBase_injective hnorm).symm⟩

end Norm

end Quintic

end Lib
