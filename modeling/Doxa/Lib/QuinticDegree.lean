import Doxa.Lib.Quintic
import Mathlib.Algebra.MvPolynomial.Degrees

/-!
# Quintic extensions of polynomial rings

`Quintic.map` is coordinatewise, and a ring homomorphism that respects `w` commutes with the
operations. Over a polynomial ring `DegreeLE d` bounds the total degree of every coordinate;
multiplication adds the bounds when `w` is a constant.
-/

namespace Lib.Quintic

section Map

variable {R S : Type*} [CommRing R] [CommRing S] {w : R} {v : S} (f : R →+* S)

def map (x : Quintic R w) : Quintic S v := ⟨f x.c0, f x.c1, f x.c2, f x.c3, f x.c4⟩

variable (x y : Quintic R w)

theorem map_add : (map f (x + y) : Quintic S v) = map f x + map f y := by
  ext <;> simp [map]

theorem map_sub : (map f (x - y) : Quintic S v) = map f x - map f y := by
  ext <;> simp [map]

theorem map_mul (h : f w = v) : (map f (x * y) : Quintic S v) = map f x * map f y := by
  ext <;> simp [map, h]

end Map

section Degree

open MvPolynomial

variable {σ K : Type*} [CommRing K] {w : MvPolynomial σ K}

/-- No coordinate has a total degree above `d`. -/
structure DegreeLE (d : ℕ) (x : Quintic (MvPolynomial σ K) w) : Prop where
  c0 : x.c0.totalDegree ≤ d
  c1 : x.c1.totalDegree ≤ d
  c2 : x.c2.totalDegree ≤ d
  c3 : x.c3.totalDegree ≤ d
  c4 : x.c4.totalDegree ≤ d

theorem totalDegree_add_le {d : ℕ} {p q : MvPolynomial σ K} (hp : p.totalDegree ≤ d)
    (hq : q.totalDegree ≤ d) : (p + q).totalDegree ≤ d :=
  (totalDegree_add p q).trans (max_le hp hq)

theorem totalDegree_sub_le {d : ℕ} {p q : MvPolynomial σ K} (hp : p.totalDegree ≤ d)
    (hq : q.totalDegree ≤ d) : (p - q).totalDegree ≤ d :=
  (totalDegree_sub p q).trans (max_le hp hq)

theorem totalDegree_mul_le {a b : ℕ} {p q : MvPolynomial σ K} (hp : p.totalDegree ≤ a)
    (hq : q.totalDegree ≤ b) : (p * q).totalDegree ≤ a + b :=
  (totalDegree_mul p q).trans (Nat.add_le_add hp hq)

/-- A factor of degree zero. -/
theorem totalDegree_scale_le {d : ℕ} {p q : MvPolynomial σ K} (hq : q.totalDegree = 0)
    (hp : p.totalDegree ≤ d) : (q * p).totalDegree ≤ d := by
  have h := totalDegree_mul_le (le_of_eq hq) hp
  rwa [Nat.zero_add] at h

namespace DegreeLE

variable {a b d : ℕ} {x y : Quintic (MvPolynomial σ K) w}

theorem mono (h : x.DegreeLE a) (hab : a ≤ b) : x.DegreeLE b :=
  ⟨h.c0.trans hab, h.c1.trans hab, h.c2.trans hab, h.c3.trans hab, h.c4.trans hab⟩

theorem add (hx : x.DegreeLE d) (hy : y.DegreeLE d) : (x + y).DegreeLE d where
  c0 := totalDegree_add_le hx.c0 hy.c0
  c1 := totalDegree_add_le hx.c1 hy.c1
  c2 := totalDegree_add_le hx.c2 hy.c2
  c3 := totalDegree_add_le hx.c3 hy.c3
  c4 := totalDegree_add_le hx.c4 hy.c4

theorem sub (hx : x.DegreeLE d) (hy : y.DegreeLE d) : (x - y).DegreeLE d where
  c0 := totalDegree_sub_le hx.c0 hy.c0
  c1 := totalDegree_sub_le hx.c1 hy.c1
  c2 := totalDegree_sub_le hx.c2 hy.c2
  c3 := totalDegree_sub_le hx.c3 hy.c3
  c4 := totalDegree_sub_le hx.c4 hy.c4

theorem mul (hw : w.totalDegree = 0) (hx : x.DegreeLE a) (hy : y.DegreeLE b) :
    (x * y).DegreeLE (a + b) where
  c0 := totalDegree_add_le (totalDegree_mul_le hx.c0 hy.c0) <| totalDegree_scale_le hw <|
    totalDegree_add_le (totalDegree_add_le (totalDegree_add_le (totalDegree_mul_le hx.c1 hy.c4)
      (totalDegree_mul_le hx.c2 hy.c3)) (totalDegree_mul_le hx.c3 hy.c2))
      (totalDegree_mul_le hx.c4 hy.c1)
  c1 := totalDegree_add_le (totalDegree_add_le (totalDegree_mul_le hx.c0 hy.c1)
    (totalDegree_mul_le hx.c1 hy.c0)) <| totalDegree_scale_le hw <|
    totalDegree_add_le (totalDegree_add_le (totalDegree_mul_le hx.c2 hy.c4)
      (totalDegree_mul_le hx.c3 hy.c3)) (totalDegree_mul_le hx.c4 hy.c2)
  c2 := totalDegree_add_le (totalDegree_add_le (totalDegree_add_le
    (totalDegree_mul_le hx.c0 hy.c2) (totalDegree_mul_le hx.c1 hy.c1))
    (totalDegree_mul_le hx.c2 hy.c0)) <| totalDegree_scale_le hw <|
    totalDegree_add_le (totalDegree_mul_le hx.c3 hy.c4) (totalDegree_mul_le hx.c4 hy.c3)
  c3 := totalDegree_add_le (totalDegree_add_le (totalDegree_add_le (totalDegree_add_le
    (totalDegree_mul_le hx.c0 hy.c3) (totalDegree_mul_le hx.c1 hy.c2))
    (totalDegree_mul_le hx.c2 hy.c1)) (totalDegree_mul_le hx.c3 hy.c0))
    (totalDegree_mul_le (totalDegree_scale_le hw hx.c4) hy.c4)
  c4 := totalDegree_add_le (totalDegree_add_le (totalDegree_add_le (totalDegree_add_le
    (totalDegree_mul_le hx.c0 hy.c4) (totalDegree_mul_le hx.c1 hy.c3))
    (totalDegree_mul_le hx.c2 hy.c2)) (totalDegree_mul_le hx.c3 hy.c1))
    (totalDegree_mul_le hx.c4 hy.c0)

end DegreeLE

end Degree

end Lib.Quintic
