import Doxa.Circuit.GateCircuit

/-!
# The constraints as polynomials

A ring homomorphism commutes with the evaluation of a gate, so the constraints on the wires
of a polynomial ring are polynomials whose values are the constraints on values. Their
degree is bounded helper by helper.
-/

namespace Doxa.Circuit

open Lib

namespace LocalQuinticExtension

/-! ## Homomorphisms -/

section Map

variable {A B : Type*} [CommRing A] [CommRing B] (f : A →+* B)

/-- The image of an element, coordinate by coordinate. -/
def map (x : LocalQuinticExtension A) : LocalQuinticExtension B := Quintic.map f x

variable (x y : LocalQuinticExtension A)

theorem map_add : map f (x + y) = map f x + map f y := Quintic.map_add f x y

theorem map_sub : map f (x - y) = map f x - map f y := Quintic.map_sub f x y

theorem map_mul : map f (x * y) = map f x * map f y := Quintic.map_mul f x y (map_ofNat f 3)

theorem map_square : map f (square x) = square (map f x) := by
  rw [square_eq, square_eq, map_mul]

theorem map_scale (s : A) : map f (scale x s) = scale (map f x) (f s) := by
  ext <;> exact f.map_mul _ _

theorem map_fromCanonicalU64 (c0 c1 c2 c3 c4 : ℕ) :
    map f (fromCanonicalU64 c0 c1 c2 c3 c4) = fromCanonicalU64 c0 c1 c2 c3 c4 := by
  ext <;> exact map_natCast f _

theorem map_wires (w : ℕ → A) (base : ℕ) : map f (wires w base) = wires (fun i => f (w i)) base :=
  rfl

theorem map_select (nlgs lgs : A) : map f (select nlgs lgs x y) =
    select (f nlgs) (f lgs) (map f x) (map f y) := by
  ext <;> simp [map, Quintic.map, select]

theorem map_assertEqual : (assertEqual x y).map f = assertEqual (map f x) (map f y) := by
  simp [assertEqual, map, Quintic.map]

theorem map_keepPoint (s : A) (xo yo : LocalQuinticExtension A) :
    (keepPoint s x y xo yo).map f = keepPoint (f s) (map f x) (map f y) (map f xo) (map f yo) := by
  simp [keepPoint, map, Quintic.map]

theorem map_scaled (s : A) (cs : List A) : (cs.map (s * ·)).map f = (cs.map f).map (f s * ·) := by
  rw [List.map_map, List.map_map]
  exact List.map_congr_left fun c _ => f.map_mul s c

theorem map_addTwoPoints (x1 y1 x2 y2 xo yo : LocalQuinticExtension A) :
    (addTwoPoints x1 y1 x2 y2 xo yo).map f =
      addTwoPoints (map f x1) (map f y1) (map f x2) (map f y2) (map f xo) (map f yo) := by
  simp only [addTwoPoints, List.map_append, map_assertEqual, map_mul, map_add, map_sub, map_square]

theorem map_addThreePoints (x1 y1 x2 y2 x3 y3 lambda xo yo : LocalQuinticExtension A) :
    (addThreePoints x1 y1 x2 y2 x3 y3 lambda xo yo).map f =
      addThreePoints (map f x1) (map f y1) (map f x2) (map f y2) (map f x3) (map f y3)
        (map f lambda) (map f xo) (map f yo) := by
  simp only [addThreePoints, List.map_append, map_assertEqual, map_mul, map_add, map_sub,
    map_square]

theorem map_doubleAccChain (accix acciy p1x p1y p2x p2y accox accoy lambda :
    LocalQuinticExtension A) (b0 b1 : A) :
    (doubleAccChain accix acciy p1x p1y p2x p2y accox accoy lambda b0 b1).map f =
      doubleAccChain (map f accix) (map f acciy) (map f p1x) (map f p1y) (map f p2x) (map f p2y)
        (map f accox) (map f accoy) (map f lambda) (f b0) (f b1) := by
  simp only [doubleAccChain, List.map_append, map_scaled, map_addTwoPoints, map_addThreePoints,
    map_keepPoint, List.map_cons, List.map_nil, f.map_mul, f.map_sub, f.map_one]

theorem map_p2DoubleOfP1 (p1x p1y p2x p2y : LocalQuinticExtension A) :
    (p2DoubleOfP1 p1x p1y p2x p2y).map f =
      p2DoubleOfP1 (map f p1x) (map f p1y) (map f p2x) (map f p2y) := by
  have hthree : f 3 = 3 := map_ofNat f 3
  have htwo : f 2 = 2 := map_ofNat f 2
  simp only [p2DoubleOfP1, capA, List.map_append, map_assertEqual, map_mul, map_add, map_sub,
    map_square, map_scale, map_fromCanonicalU64, hthree, htwo]

end Map

end LocalQuinticExtension

section Map

open LocalQuinticExtension

variable {A B : Type*} [CommRing A] [CommRing B] (f : A →+* B) (w : ℕ → A)

theorem DoubleAdd4x.map_evalUnfiltered :
    (evalUnfiltered w).map f = evalUnfiltered fun i => f (w i) := by
  simp only [evalUnfiltered, List.map_append, map_p2DoubleOfP1, map_doubleAccChain, map_scaled,
    map_assertEqual, map_wires, map_select, generatorX, generatorY, offsetNegX, offsetNegY,
    map_fromCanonicalU64, List.map_cons, List.map_nil, f.map_mul, f.map_sub, f.map_one]

theorem CompressionGate.map_evalOp (j : ℕ) :
    (evalOp w j).map f = evalOp (fun i => f (w i)) j := by
  simp only [evalOp, List.map_append, map_assertEqual, LocalQuinticExtension.map_mul,
    LocalQuinticExtension.map_add, LocalQuinticExtension.map_sub, map_square, map_scale, map_wires,
    adiv3, capA, capB, map_fromCanonicalU64]

theorem CompressionGate.map_evalUnfiltered (numOps : ℕ) :
    (evalUnfiltered numOps w).map f = evalUnfiltered numOps fun i => f (w i) := by
  rw [evalUnfiltered, evalUnfiltered, List.map_flatMap]
  exact congrArg (fun g => List.flatMap g _) (funext fun j => map_evalOp f w j)

end Map

/-! ## Degrees -/

section Degree

open MvPolynomial LocalQuinticExtension

variable {K : Type*} [CommRing K]

/-- Polynomials in the wires. -/
abbrev WirePolynomial (K : Type*) [CommRing K] := MvPolynomial ℕ K

theorem totalDegree_natCast (n : ℕ) : (n : WirePolynomial K).totalDegree = 0 := by
  rw [← map_natCast (C : K →+* WirePolynomial K) n, totalDegree_C]

theorem totalDegree_three : (3 : WirePolynomial K).totalDegree = 0 := totalDegree_natCast 3

theorem totalDegree_wire (i : ℕ) : (X i : WirePolynomial K).totalDegree ≤ 1 := by
  refine (totalDegree_monomial_le _ _).trans ?_
  simp

namespace LocalQuinticExtension

/-- The bound of an element over the polynomials in the wires. -/
abbrev DegLE (d : ℕ) (x : LocalQuinticExtension (WirePolynomial K)) : Prop := Quintic.DegreeLE d x

variable {a b d : ℕ} {x y : LocalQuinticExtension (WirePolynomial K)}

theorem DegLE.times (hx : x.DegLE a) (hy : y.DegLE b) : (x * y).DegLE (a + b) :=
  Quintic.DegreeLE.mul totalDegree_three hx hy

theorem DegLE.square (hx : x.DegLE a) : (square x).DegLE (a + a) := by
  rw [square_eq]
  exact hx.times hx

theorem DegLE.scale {s : WirePolynomial K} (hx : x.DegLE a) (hs : s.totalDegree ≤ b) :
    (scale x s).DegLE (a + b) where
  c0 := Quintic.totalDegree_mul_le hx.c0 hs
  c1 := Quintic.totalDegree_mul_le hx.c1 hs
  c2 := Quintic.totalDegree_mul_le hx.c2 hs
  c3 := Quintic.totalDegree_mul_le hx.c3 hs
  c4 := Quintic.totalDegree_mul_le hx.c4 hs

theorem degLE_fromCanonicalU64 (c0 c1 c2 c3 c4 : ℕ) :
    (fromCanonicalU64 c0 c1 c2 c3 c4 : LocalQuinticExtension (WirePolynomial K)).DegLE 0 where
  c0 := (totalDegree_natCast c0).le
  c1 := (totalDegree_natCast c1).le
  c2 := (totalDegree_natCast c2).le
  c3 := (totalDegree_natCast c3).le
  c4 := (totalDegree_natCast c4).le

theorem degLE_wires (base : ℕ) :
    (wires X base : LocalQuinticExtension (WirePolynomial K)).DegLE 1 where
  c0 := totalDegree_wire _
  c1 := totalDegree_wire _
  c2 := totalDegree_wire _
  c3 := totalDegree_wire _
  c4 := totalDegree_wire _

theorem DegLE.select {s t : WirePolynomial K} (hs : s.totalDegree ≤ a) (ht : t.totalDegree ≤ a)
    (hx : x.DegLE b) (hy : y.DegLE b) : (select s t x y).DegLE (a + b) where
  c0 := Quintic.totalDegree_add_le (Quintic.totalDegree_mul_le hs hx.c0)
    (Quintic.totalDegree_mul_le ht hy.c0)
  c1 := Quintic.totalDegree_add_le (Quintic.totalDegree_mul_le hs hx.c1)
    (Quintic.totalDegree_mul_le ht hy.c1)
  c2 := Quintic.totalDegree_add_le (Quintic.totalDegree_mul_le hs hx.c2)
    (Quintic.totalDegree_mul_le ht hy.c2)
  c3 := Quintic.totalDegree_add_le (Quintic.totalDegree_mul_le hs hx.c3)
    (Quintic.totalDegree_mul_le ht hy.c3)
  c4 := Quintic.totalDegree_add_le (Quintic.totalDegree_mul_le hs hx.c4)
    (Quintic.totalDegree_mul_le ht hy.c4)

end LocalQuinticExtension

/-- No constraint of the list has a degree above `d`. -/
def ConstraintsLE (d : ℕ) (cs : List (WirePolynomial K)) : Prop := ∀ c ∈ cs, c.totalDegree ≤ d

namespace ConstraintsLE

variable {a b d : ℕ} {cs ds : List (WirePolynomial K)}

theorem mono (h : ConstraintsLE a cs) (hab : a ≤ b) : ConstraintsLE b cs := fun c hc =>
  (h c hc).trans hab

theorem append (hc : ConstraintsLE d cs) (hd : ConstraintsLE d ds) : ConstraintsLE d (cs ++ ds) := by
  intro c h
  obtain h | h := List.mem_append.mp h
  · exact hc c h
  · exact hd c h

theorem single {c : WirePolynomial K} (h : c.totalDegree ≤ d) : ConstraintsLE d [c] := by
  intro p hp
  rwa [List.mem_singleton.mp hp]

theorem selected {s : WirePolynomial K} (hs : s.totalDegree ≤ a) (hc : ConstraintsLE b cs) :
    ConstraintsLE (a + b) (cs.map (s * ·)) := by
  intro p hp
  obtain ⟨c, hmem, rfl⟩ := List.mem_map.mp hp
  exact Quintic.totalDegree_mul_le hs (hc c hmem)

end ConstraintsLE

section Helpers

variable {x1 y1 x2 y2 x3 y3 lambda xo yo : LocalQuinticExtension (WirePolynomial K)}

theorem constraintsLE_assertEqual {d : ℕ} (hx : x1.DegLE d) (hy : x2.DegLE d) :
    ConstraintsLE d (assertEqual x1 x2) := by
  have h := Quintic.DegreeLE.sub hx hy
  intro c hc
  simp only [assertEqual, List.mem_cons, List.not_mem_nil, or_false] at hc
  obtain rfl | rfl | rfl | rfl | rfl := hc
  · exact h.c0
  · exact h.c1
  · exact h.c2
  · exact h.c3
  · exact h.c4

theorem constraintsLE_keepPoint {a b : ℕ} {s : WirePolynomial K} (hs : s.totalDegree ≤ a)
    (hx : x1.DegLE b) (hy : y1.DegLE b) (hxo : xo.DegLE b) (hyo : yo.DegLE b) :
    ConstraintsLE (a + b) (keepPoint s x1 y1 xo yo) := by
  have hdx := Quintic.DegreeLE.sub hx hxo
  have hdy := Quintic.DegreeLE.sub hy hyo
  have hmul : ∀ {p : WirePolynomial K}, p.totalDegree ≤ b → (s * p).totalDegree ≤ a + b :=
    fun hp => Quintic.totalDegree_mul_le hs hp
  intro c hc
  simp only [keepPoint, List.mem_cons, List.not_mem_nil, or_false] at hc
  obtain rfl | rfl | rfl | rfl | rfl | rfl | rfl | rfl | rfl | rfl := hc
  · exact hmul hdx.c0
  · exact hmul hdy.c0
  · exact hmul hdx.c1
  · exact hmul hdy.c1
  · exact hmul hdx.c2
  · exact hmul hdy.c2
  · exact hmul hdx.c3
  · exact hmul hdy.c3
  · exact hmul hdx.c4
  · exact hmul hdy.c4

theorem constraintsLE_addTwoPoints (hx1 : x1.DegLE 1) (hy1 : y1.DegLE 1) (hx2 : x2.DegLE 1)
    (hy2 : y2.DegLE 1) (hxo : xo.DegLE 1) (hyo : yo.DegLE 1) :
    ConstraintsLE 3 (addTwoPoints x1 y1 x2 y2 xo yo) := by
  have hx := hx2.sub hx1
  have hy := hy2.sub hy1
  refine .append (constraintsLE_assertEqual ?_ ?_) (constraintsLE_assertEqual ?_ ?_)
  · exact DegLE.times ((hxo.add hx1).add hx2) (DegLE.square hx)
  · exact (DegLE.square hy).mono (by decide)
  · exact (DegLE.times (hyo.add hy1) hx).mono (by decide)
  · exact (DegLE.times hy (hx1.sub hxo)).mono (by decide)

theorem constraintsLE_addThreePoints (hx1 : x1.DegLE 1) (hy1 : y1.DegLE 1) (hx2 : x2.DegLE 1)
    (hy2 : y2.DegLE 1) (hx3 : x3.DegLE 1) (hy3 : y3.DegLE 1) (hlambda : lambda.DegLE 1)
    (hxo : xo.DegLE 1) (hyo : yo.DegLE 1) :
    ConstraintsLE 6 (addThreePoints x1 y1 x2 y2 x3 y3 lambda xo yo) := by
  have hone : (1 : ℕ) ≤ 2 := by decide
  have hxi : (square lambda - x1 - x2).DegLE 2 :=
    ((DegLE.square hlambda).sub (hx1.mono hone)).sub (hx2.mono hone)
  have hyi : (lambda * (x1 - (square lambda - x1 - x2)) - y1).DegLE 3 :=
    (DegLE.times hlambda ((hx1.mono hone).sub hxi)).sub (hy1.mono (by decide))
  have hx := hxi.sub (hx3.mono hone)
  have hy := hyi.sub (hy3.mono (by decide : 1 ≤ 3))
  refine .append (.append (constraintsLE_assertEqual ?_ ?_) (constraintsLE_assertEqual ?_ ?_))
    (constraintsLE_assertEqual ?_ ?_)
  · exact (DegLE.times hlambda (hx2.sub hx1)).mono (by decide)
  · exact (hy2.sub hy1).mono (by decide)
  · exact DegLE.times (((hxo.mono hone).add hxi).add (hx3.mono hone)) (DegLE.square hx)
  · exact DegLE.square hy
  · exact (DegLE.times (hyo.add hy3) hx).mono (by decide)
  · exact (DegLE.times hy (hx3.sub hxo)).mono (by decide)

theorem constraintsLE_doubleAccChain (hx1 : x1.DegLE 1) (hy1 : y1.DegLE 1) (hx2 : x2.DegLE 1)
    (hy2 : y2.DegLE 1) (hx3 : x3.DegLE 1) (hy3 : y3.DegLE 1) (hlambda : lambda.DegLE 1)
    (hxo : xo.DegLE 1) (hyo : yo.DegLE 1) {b0 b1 : WirePolynomial K} (hb0 : b0.totalDegree ≤ 1)
    (hb1 : b1.totalDegree ≤ 1) :
    ConstraintsLE 8 (doubleAccChain x1 y1 x2 y2 x3 y3 xo yo lambda b0 b1) := by
  have hnot : ∀ {b : WirePolynomial K}, b.totalDegree ≤ 1 → (1 - b).totalDegree ≤ 1 :=
    fun hb => Quintic.totalDegree_sub_le (by simp) hb
  have hmul : ∀ {b c : WirePolynomial K}, b.totalDegree ≤ 1 → c.totalDegree ≤ 1 →
      (b * c).totalDegree ≤ 2 := fun hb hc => Quintic.totalDegree_mul_le hb hc
  refine .append (.append (.append (.append (.append (.single ?_) (.single ?_)) ?_) ?_) ?_) ?_
  · exact (hmul (hnot hb0) hb0).trans (by decide)
  · exact (hmul (hnot hb1) hb1).trans (by decide)
  · exact (constraintsLE_keepPoint (hmul (hnot hb0) (hnot hb1)) hx1 hy1 hxo hyo).mono (by decide)
  · exact (ConstraintsLE.selected (hmul hb0 (hnot hb1))
      (constraintsLE_addTwoPoints hx1 hy1 hx2 hy2 hxo hyo)).mono (by decide)
  · exact (ConstraintsLE.selected (hmul (hnot hb0) hb1)
      (constraintsLE_addTwoPoints hx1 hy1 hx3 hy3 hxo hyo)).mono (by decide)
  · exact .selected (hmul hb0 hb1)
      (constraintsLE_addThreePoints hx1 hy1 hx2 hy2 hx3 hy3 hlambda hxo hyo)

theorem constraintsLE_p2DoubleOfP1 (hx1 : x1.DegLE 1) (hy1 : y1.DegLE 1) (hx2 : x2.DegLE 1)
    (hy2 : y2.DegLE 1) : ConstraintsLE 6 (p2DoubleOfP1 x1 y1 x2 y2) := by
  have hthree : (3 : WirePolynomial K).totalDegree ≤ 0 := totalDegree_three.le
  have htwo : (2 : WirePolynomial K).totalDegree ≤ 0 := (totalDegree_natCast 2).le
  have hnum : (scale (square x1) 3 + capA).DegLE 2 :=
    ((DegLE.square hx1).scale hthree).add ((degLE_fromCanonicalU64 _ _ _ _ _).mono (by decide))
  have hdenom : (scale y1 2).DegLE 1 := DegLE.scale hy1 htwo
  have hnumSq := DegLE.square hnum
  have hdenomSq := DegLE.square hdenom
  refine .append (constraintsLE_assertEqual ?_ ?_) (constraintsLE_assertEqual ?_ ?_)
  · exact (DegLE.times ((hx2.add hx1).add hx1) hdenomSq).mono (by decide)
  · exact hnumSq.mono (by decide)
  · exact (DegLE.times (hy2.add hy1) (DegLE.times hdenomSq hdenom)).mono (by decide)
  · refine Quintic.DegreeLE.sub ?_ (DegLE.times hnumSq hnum)
    exact (DegLE.scale (DegLE.times (DegLE.times hx1 hnum) hdenomSq) hthree).mono (by decide)

end Helpers

theorem DoubleAdd4x.constraintsLE :
    ConstraintsLE degree (evalUnfiltered (X : ℕ → WirePolynomial K)) := by
  have hwire : ∀ base, (wires X base : LocalQuinticExtension (WirePolynomial K)).DegLE 1 :=
    degLE_wires
  have hconst : ∀ c0 c1 c2 c3 c4,
      (fromCanonicalU64 c0 c1 c2 c3 c4 : LocalQuinticExtension (WirePolynomial K)).DegLE 1 :=
    fun c0 c1 c2 c3 c4 => (degLE_fromCanonicalU64 c0 c1 c2 c3 c4).mono (by decide)
  have hbit : ∀ i, (X i : WirePolynomial K).totalDegree ≤ 1 := totalDegree_wire
  have hnlgs : (1 - X 39 : WirePolynomial K).totalDegree ≤ 1 :=
    Quintic.totalDegree_sub_le (by simp) (hbit 39)
  have hlast : ∀ c0 c1 c2 c3 c4 d0 d1 d2 d3 d4, (select (1 - X 39) (X 39)
      (fromCanonicalU64 c0 c1 c2 c3 c4) (fromCanonicalU64 d0 d1 d2 d3 d4) :
        LocalQuinticExtension (WirePolynomial K)).DegLE 1 := by
    intro c0 c1 c2 c3 c4 d0 d1 d2 d3 d4
    exact DegLE.select hnlgs (hbit 39) (degLE_fromCanonicalU64 c0 c1 c2 c3 c4)
      (degLE_fromCanonicalU64 d0 d1 d2 d3 d4)
  have hdouble : ∀ a b c d, ConstraintsLE 6 (p2DoubleOfP1 (wires X a) (wires X b) (wires X c)
      (wires X d) : List (WirePolynomial K)) := fun a b c d =>
    constraintsLE_p2DoubleOfP1 (hwire a) (hwire b) (hwire c) (hwire d)
  have hchain : ∀ a b c d e s t, ConstraintsLE 8 (doubleAccChain (wires X a) (wires X b)
      (wires X 0) (wires X 5) generatorX generatorY (wires X c) (wires X d) (wires X e) (X s)
        (X t) : List (WirePolynomial K)) := fun a b c d e s t =>
    constraintsLE_doubleAccChain (hwire a) (hwire b) (hwire 0) (hwire 5) (hconst _ _ _ _ _)
      (hconst _ _ _ _ _) (hwire e) (hwire c) (hwire d) (hbit s) (hbit t)
  have hle : 6 ≤ degree := by decide
  refine .append (.append (.append (.append (.append (.append (.append (.append (.append ?_ ?_) ?_)
    (.single ?_)) ?_) ?_) ?_) ?_) ?_) ?_
  · exact (hdouble 10 15 70 75).mono hle
  · exact (hdouble 40 45 80 85).mono hle
  · exact (hdouble 50 55 90 95).mono hle
  · exact (Quintic.totalDegree_mul_le (hbit 39) hnlgs).trans (by decide)
  · exact (ConstraintsLE.selected hnlgs (hdouble 60 65 100 105)).mono (by decide)
  · exact (ConstraintsLE.selected (hbit 39) ((constraintsLE_assertEqual (hwire 60) (hwire 100)).append
      (constraintsLE_assertEqual (hwire 65) (hwire 105)))).mono (by decide)
  · exact hchain 70 75 40 45 110 30 35
  · exact hchain 80 85 50 55 115 31 36
  · exact hchain 90 95 60 65 120 32 37
  · exact constraintsLE_doubleAccChain (hwire 100) (hwire 105) (hwire 0) (hwire 5)
      (hlast _ _ _ _ _ _ _ _ _ _) (hlast _ _ _ _ _ _ _ _ _ _) (hwire 125) (hwire 20) (hwire 25)
      (hbit 33) (hbit 38)

theorem CompressionGate.constraintsLE (numOps : ℕ) :
    ConstraintsLE degree (evalUnfiltered numOps (X : ℕ → WirePolynomial K)) := by
  intro c hc
  obtain ⟨j, -, hc⟩ := List.mem_flatMap.mp hc
  have hwire : ∀ base, (wires X base : LocalQuinticExtension (WirePolynomial K)).DegLE 1 :=
    degLE_wires
  have hconst : ∀ c0 c1 c2 c3 c4,
      (fromCanonicalU64 c0 c1 c2 c3 c4 : LocalQuinticExtension (WirePolynomial K)).DegLE 0 :=
    degLE_fromCanonicalU64
  have hx := hwire (wireIthXOffset j)
  have hy := hwire (wireIthYOffset j)
  have hcurve : (scale (capA * wires X (wireIthXOffset j) + capB) (X (wireIthIsactiveOffset j)) :
      LocalQuinticExtension (WirePolynomial K)).DegLE 2 :=
    DegLE.scale ((DegLE.times (hconst _ _ _ _ _) hx).add ((hconst _ _ _ _ _).mono (by decide)))
      (totalDegree_wire _)
  refine ConstraintsLE.append (constraintsLE_assertEqual ?_ (hy.mono (by decide)))
    (constraintsLE_assertEqual ?_ ?_) c hc
  · exact (DegLE.times (hwire _) (((hconst _ _ _ _ _).mono (by decide)).sub hx)).mono (by decide)
  · exact (DegLE.times (DegLE.square hx) hx).add (hcurve.mono (by decide))
  · exact (DegLE.square hy).mono (by decide)

end Degree

/-! ## Agreement -/

section Agreement

variable {K : Type*} [CommRing K]

/-- The targets of a gate have the values of its constraints under every assignment, both are
`count` many, and each is a polynomial in the wires of degree at most `degree`. -/
structure EvaluationsAgree (native : (ℕ → K) → List K) (circuit : List (ExtensionTarget K))
    (count degree : ℕ) : Prop where
  values : ∀ w, circuit.map (Term.eval w) = native w
  targets : circuit.length = count
  constraints : ∀ w, (native w).length = count
  polynomials : ∃ polys : List (MvPolynomial ℕ K),
    (∀ w, polys.map (MvPolynomial.eval w) = native w) ∧ ∀ p ∈ polys, p.totalDegree ≤ degree

theorem DoubleAdd4x.length_evalUnfiltered (w : ℕ → K) :
    (DoubleAdd4x.evalUnfiltered w).length = DoubleAdd4x.numConstraints := by
  have hdouble : ∀ x1 y1 x2 y2 : LocalQuinticExtension K,
      (LocalQuinticExtension.p2DoubleOfP1 x1 y1 x2 y2).length = 10 := fun _ _ _ _ => rfl
  have hchain : ∀ (x y x1 y1 x2 y2 xo yo lambda : LocalQuinticExtension K) (b0 b1 : K),
      (LocalQuinticExtension.doubleAccChain x y x1 y1 x2 y2 xo yo lambda b0 b1).length = 47 :=
    fun _ _ _ _ _ _ _ _ _ _ _ => rfl
  have hequal : ∀ x y : LocalQuinticExtension K,
      (LocalQuinticExtension.assertEqual x y).length = 5 := fun _ _ => rfl
  simp only [DoubleAdd4x.evalUnfiltered, List.length_append, List.length_map, hdouble, hchain,
    hequal, List.length_singleton]
  rfl

theorem CompressionGate.length_evalUnfiltered (numOps : ℕ) (w : ℕ → K) :
    (CompressionGate.evalUnfiltered numOps w).length = CompressionGate.numConstraints numOps := by
  have hop : ∀ j, (CompressionGate.evalOp w j).length = 10 := fun j => rfl
  rw [CompressionGate.evalUnfiltered, List.length_flatMap, CompressionGate.numConstraints]
  simp only [hop, List.map_const', List.length_range, List.sum_replicate, smul_eq_mul]
  omega

variable (K) [Algebra F K]

/-- The native and the recursive evaluation of both gates agree. -/
theorem evaluations_agree :
    EvaluationsAgree (K := K) DoubleAdd4x.evalUnfiltered DoubleAdd4x.evalUnfilteredCircuit
      DoubleAdd4x.numConstraints DoubleAdd4x.degree ∧
    ∀ numOps, EvaluationsAgree (K := K) (CompressionGate.evalUnfiltered numOps)
      (CompressionGate.evalUnfilteredCircuit numOps) (CompressionGate.numConstraints numOps)
        CompressionGate.degree := by
  constructor
  · have hvalues := DoubleAdd4x.evalUnfilteredCircuit_eq (K := K)
    have hlength := DoubleAdd4x.length_evalUnfiltered (K := K)
    refine ⟨hvalues, ?_, hlength, DoubleAdd4x.evalUnfiltered MvPolynomial.X, fun w => ?_,
      DoubleAdd4x.constraintsLE⟩
    · rw [← hlength 0, ← hvalues 0, List.length_map]
    · rw [DoubleAdd4x.map_evalUnfiltered]
      simp only [MvPolynomial.eval_X]
  · intro numOps
    have hvalues := CompressionGate.evalUnfilteredCircuit_eq (K := K) numOps
    have hlength := CompressionGate.length_evalUnfiltered (K := K) numOps
    refine ⟨hvalues, ?_, hlength, CompressionGate.evalUnfiltered numOps MvPolynomial.X, fun w => ?_,
      CompressionGate.constraintsLE numOps⟩
    · rw [← hlength 0, ← hvalues 0, List.length_map]
    · rw [CompressionGate.map_evalUnfiltered]
      simp only [MvPolynomial.eval_X]

end Agreement

end Doxa.Circuit
