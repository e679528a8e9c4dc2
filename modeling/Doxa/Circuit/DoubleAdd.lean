import Doxa.Circuit.GateDegree
import Doxa.Circuit.Soundness

/-!
# The double-and-add gate

The constraints of a gate are those of its parts, and a part whose points have different `x`
(or, for a doubling, a nonzero `y`) holds for the sum and for no other point. So the outputs
of a gate without exceptional step are the points of four steps of double-and-add, and the
values `compute_gate_witness` computes satisfy the constraints.
-/

namespace Doxa.Circuit

open Lib WeierstrassCurve.Affine

/-! ## The constraint list -/

section Zero

open LocalQuinticExtension

/-- Every constraint of the list is zero. -/
def AllZero (cs : List F) : Prop := ∀ c ∈ cs, c = 0

theorem allZero_append {cs ds : List F} : AllZero (cs ++ ds) ↔ AllZero cs ∧ AllZero ds :=
  List.forall_mem_append

theorem allZero_cons {c : F} {cs : List F} : AllZero (c :: cs) ↔ c = 0 ∧ AllZero cs :=
  List.forall_mem_cons

theorem allZero_nil : AllZero [] := fun _ h => absurd h List.not_mem_nil

theorem allZero_singleton {c : F} : AllZero [c] ↔ c = 0 := List.forall_mem_singleton

theorem assertEqual_iff {s : F} {x y : QuinticExtension} : AssertEqual s x y ↔
    s * (x.c0 - y.c0) = 0 ∧ s * (x.c1 - y.c1) = 0 ∧ s * (x.c2 - y.c2) = 0 ∧
      s * (x.c3 - y.c3) = 0 ∧ s * (x.c4 - y.c4) = 0 := by
  rw [AssertEqual, Quintic.ext_iff]
  simp only [Quintic.mul_c0, Quintic.mul_c1, Quintic.mul_c2, Quintic.mul_c3, Quintic.mul_c4,
    Quintic.ofBase_c0, Quintic.ofBase_c1, Quintic.ofBase_c2, Quintic.ofBase_c3, Quintic.ofBase_c4,
    Quintic.sub_c0, Quintic.sub_c1, Quintic.sub_c2, Quintic.sub_c3, Quintic.sub_c4,
    Quintic.zero_c0, Quintic.zero_c1, Quintic.zero_c2, Quintic.zero_c3, Quintic.zero_c4, zero_mul,
    mul_zero, add_zero]

theorem allZero_selected {s : F} {x y : QuinticExtension} :
    AllZero ((assertEqual x y).map (s * ·)) ↔ AssertEqual s x y := by
  rw [assertEqual_iff]
  simp only [assertEqual, List.map_cons, List.map_nil, allZero_cons, allZero_nil, and_true]

theorem allZero_assertEqual {x y : QuinticExtension} :
    AllZero (assertEqual x y) ↔ AssertEqual 1 x y := by
  rw [assertEqual_iff]
  simp only [assertEqual, allZero_cons, allZero_nil, and_true, one_mul]

theorem allZero_keepPoint {s : F} {x y xo yo : QuinticExtension} :
    AllZero (keepPoint s x y xo yo) ↔ AssertEqual s x xo ∧ AssertEqual s y yo := by
  rw [assertEqual_iff, assertEqual_iff]
  simp only [keepPoint, allZero_cons, allZero_nil, and_true]
  tauto

theorem scale_eq (x : QuinticExtension) (s : F) : scale x s = x * Quintic.ofBase s := by
  ext <;> simp [scale]

theorem square_eq_pow (x : QuinticExtension) : square x = x ^ 2 := by rw [square_eq, pow_two]

section Parts

variable (s : F) (p1 p2 p3 po : LocalPointEw) (lambda : QuinticExtension)

theorem allZero_addTwoPoints :
    AllZero ((addTwoPoints p1.x p1.y p2.x p2.y po.x po.y).map (s * ·)) ↔
      AddTwoPoints s p1 p2 po := by
  simp only [addTwoPoints, List.map_append, allZero_append, allZero_selected, square_eq_pow,
    AddTwoPoints]

theorem allZero_addThreePoints :
    AllZero ((addThreePoints p1.x p1.y p2.x p2.y p3.x p3.y lambda po.x po.y).map (s * ·)) ↔
      AddThreePoints s p1 p2 p3 lambda po := by
  simp only [addThreePoints, List.map_append, allZero_append, allZero_selected, square_eq_pow,
    AddThreePoints, slopeSum, and_assoc]

theorem allZero_doubleAccChain (b0 b1 : F) :
    AllZero (doubleAccChain p1.x p1.y p2.x p2.y p3.x p3.y po.x po.y lambda b0 b1) ↔
      DoubleAccChain p1 p2 p3 po lambda b0 b1 := by
  simp only [doubleAccChain, allZero_append, allZero_cons, allZero_nil, and_true,
    allZero_keepPoint, allZero_addTwoPoints, allZero_addThreePoints, DoubleAccChain, and_assoc]

theorem allZero_p2DoubleOfP1_selected :
    AllZero ((p2DoubleOfP1 p1.x p1.y p2.x p2.y).map (s * ·)) ↔ P2DoubleOfP1 s p1 p2 := by
  have hthree : ∀ x : QuinticExtension, scale x 3 = x * 3 := fun x => scale_eq x 3
  have htwo : ∀ x : QuinticExtension, scale x 2 = x * 2 := fun x => scale_eq x 2
  have hA : (capA : QuinticExtension) = ECGFP5_CAP_A := rfl
  simp only [p2DoubleOfP1, List.map_append, allZero_append, allZero_selected, square_eq_pow,
    P2DoubleOfP1, hthree, htwo, hA]

theorem allZero_p2DoubleOfP1 :
    AllZero (p2DoubleOfP1 p1.x p1.y p2.x p2.y) ↔ P2DoubleOfP1 1 p1 p2 := by
  rw [← allZero_p2DoubleOfP1_selected 1 p1 p2]
  simp only [one_mul, List.map_id']

end Parts

/-- The two halves of a point from wire `base` on. -/
def wirePoint (w : ℕ → F) (base : ℕ) : LocalPointEw := ⟨wires w base, wires w (base + 5)⟩

/-- The wires of the gate. -/
def wireTargets (w : ℕ → F) : DoubleAdd4xTargets where
  p := wirePoint w 0
  accin := wirePoint w 10
  acco4 := wirePoint w 20
  sp := fun i => w (30 + i)
  sg := fun i => w (35 + i)
  lgs := w 39
  acco1 := wirePoint w 40
  acco2 := wirePoint w 50
  acco3 := wirePoint w 60
  accdblin := wirePoint w 70
  accdblo1 := wirePoint w 80
  accdblo2 := wirePoint w 90
  accdblo3 := wirePoint w 100
  lambda1 := wires w 110
  lambda2 := wires w 115
  lambda3 := wires w 120
  lambda4 := wires w 125

/-- The wires in blocks of five; wire 34 is unused. -/
def DoubleAdd4xTargets.block (t : DoubleAdd4xTargets) : ℕ → QuinticExtension
  | 0 => t.p.x
  | 1 => t.p.y
  | 2 => t.accin.x
  | 3 => t.accin.y
  | 4 => t.acco4.x
  | 5 => t.acco4.y
  | 6 => ⟨t.sp 0, t.sp 1, t.sp 2, t.sp 3, 0⟩
  | 7 => ⟨t.sg 0, t.sg 1, t.sg 2, t.sg 3, t.lgs⟩
  | 8 => t.acco1.x
  | 9 => t.acco1.y
  | 10 => t.acco2.x
  | 11 => t.acco2.y
  | 12 => t.acco3.x
  | 13 => t.acco3.y
  | 14 => t.accdblin.x
  | 15 => t.accdblin.y
  | 16 => t.accdblo1.x
  | 17 => t.accdblo1.y
  | 18 => t.accdblo2.x
  | 19 => t.accdblo2.y
  | 20 => t.accdblo3.x
  | 21 => t.accdblo3.y
  | 22 => t.lambda1
  | 23 => t.lambda2
  | 24 => t.lambda3
  | _ => t.lambda4

def coordinate (x : QuinticExtension) : ℕ → F
  | 0 => x.c0
  | 1 => x.c1
  | 2 => x.c2
  | 3 => x.c3
  | _ => x.c4

/-- An assignment of the wires of the gate. -/
def DoubleAdd4xTargets.wires (t : DoubleAdd4xTargets) (i : ℕ) : F :=
  coordinate (t.block (i / 5)) (i % 5)

theorem wireTargets_wires (t : DoubleAdd4xTargets) : wireTargets t.wires = t := by
  have hblock : ∀ n, LocalQuinticExtension.wires t.wires (5 * n) = t.block n := by
    intro n
    have hdiv : ∀ i < 5, t.wires (5 * n + i) = coordinate (t.block n) i := by
      intro i hi
      have hd : (5 * n + i) / 5 = n := by omega
      have hm : (5 * n + i) % 5 = i := by omega
      rw [DoubleAdd4xTargets.wires, hd, hm]
    ext
    · exact hdiv 0 (by decide)
    · exact hdiv 1 (by decide)
    · exact hdiv 2 (by decide)
    · exact hdiv 3 (by decide)
    · exact hdiv 4 (by decide)
  have hpoint : ∀ n, wirePoint t.wires (5 * n) = ⟨t.block n, t.block (n + 1)⟩ := fun n =>
    LocalPointEw.ext (hblock n) (hblock (n + 1))
  have hbits : ∀ n, ∀ i : Fin 4, t.wires (5 * n + i) = coordinate (t.block n) i := by
    intro n i
    have hd : (5 * n + i.val) / 5 = n := by omega
    have hm : (5 * n + i.val) % 5 = i := by omega
    rw [DoubleAdd4xTargets.wires, hd, hm]
  have hsp : (fun i : Fin 4 => t.wires (30 + i)) = t.sp := by
    funext i
    rw [hbits 6 i]
    match i with
    | 0 | 1 | 2 | 3 => rfl
  have hsg : (fun i : Fin 4 => t.wires (35 + i)) = t.sg := by
    funext i
    rw [hbits 7 i]
    match i with
    | 0 | 1 | 2 | 3 => rfl
  have hlgs : t.wires 39 = t.lgs := rfl
  unfold wireTargets
  rw [hsp, hsg, hlgs, hpoint 0, hpoint 2, hpoint 4, hpoint 8, hpoint 10, hpoint 12, hpoint 14,
    hpoint 16, hpoint 18, hpoint 20, hblock 22, hblock 23, hblock 24, hblock 25]
  rfl

theorem select_eq (lgs : F) : lastPoint lgs =
    ⟨select (1 - lgs) lgs generatorX offsetNegX, select (1 - lgs) lgs generatorY offsetNegY⟩ := by
  have hgx : (generatorX : QuinticExtension) = GENERATOR_X := rfl
  have hgy : (generatorY : QuinticExtension) = GENERATOR_Y := rfl
  have hox : (offsetNegX : QuinticExtension) = OFFSET_NEG_319_X := rfl
  have hoy : (offsetNegY : QuinticExtension) = OFFSET_NEG_319_Y := rfl
  rw [hgx, hgy, hox, hoy]
  have hcoord : ∀ x y : QuinticExtension,
      Quintic.ofBase (1 - lgs) * x + Quintic.ofBase lgs * y = select (1 - lgs) lgs x y := by
    intro x y
    ext <;> simp [select]
  exact LocalPointEw.ext (hcoord _ _) (hcoord _ _)

/-- The constraints of the gate on the wires of the base field. -/
theorem doubleAdd4x_allZero_iff (w : ℕ → F) :
    AllZero (DoubleAdd4x.evalUnfiltered w) ↔ (wireTargets w).Satisfied := by
  have hlast : ∀ po lambda b0 b1, AllZero (doubleAccChain (wires w 100) (wires w 105) (wires w 0)
      (wires w 5) (select (1 - w 39) (w 39) generatorX offsetNegX)
        (select (1 - w 39) (w 39) generatorY offsetNegY) po.x po.y lambda b0 b1) ↔
      DoubleAccChain (wirePoint w 100) (wirePoint w 0) (lastPoint (w 39)) po lambda b0 b1 := by
    intro po lambda b0 b1
    rw [select_eq]
    exact allZero_doubleAccChain (wirePoint w 100) (wirePoint w 0) ⟨_, _⟩ po lambda b0 b1
  have hchain : ∀ a o lambda b0 b1, AllZero (doubleAccChain (wires w a) (wires w (a + 5)) (wires w 0)
      (wires w 5) generatorX generatorY (wires w o) (wires w (o + 5)) lambda b0 b1) ↔
      DoubleAccChain (wirePoint w a) (wirePoint w 0) generatorPoint (wirePoint w o) lambda b0 b1 :=
    fun a o lambda b0 b1 => allZero_doubleAccChain (wirePoint w a) (wirePoint w 0) generatorPoint
      (wirePoint w o) lambda b0 b1
  have hdouble : ∀ a d, AllZero (p2DoubleOfP1 (wires w a) (wires w (a + 5)) (wires w d)
      (wires w (d + 5))) ↔ P2DoubleOfP1 1 (wirePoint w a) (wirePoint w d) :=
    fun a d => allZero_p2DoubleOfP1 (wirePoint w a) (wirePoint w d)
  have hselected : AllZero ((p2DoubleOfP1 (wires w 60) (wires w 65) (wires w 100)
      (wires w 105)).map ((1 - w 39) * ·)) ↔
      P2DoubleOfP1 (1 - w 39) (wirePoint w 60) (wirePoint w 100) :=
    allZero_p2DoubleOfP1_selected _ (wirePoint w 60) (wirePoint w 100)
  have hsplit : AllZero (DoubleAdd4x.evalUnfiltered w) ↔
      ((((((((P2DoubleOfP1 1 (wirePoint w 10) (wirePoint w 70) ∧
        P2DoubleOfP1 1 (wirePoint w 40) (wirePoint w 80)) ∧
        P2DoubleOfP1 1 (wirePoint w 50) (wirePoint w 90)) ∧ w 39 * (1 - w 39) = 0) ∧
        P2DoubleOfP1 (1 - w 39) (wirePoint w 60) (wirePoint w 100)) ∧
        AssertEqual (w 39) (wires w 60) (wires w 100) ∧
          AssertEqual (w 39) (wires w 65) (wires w 105)) ∧
        DoubleAccChain (wirePoint w 70) (wirePoint w 0) generatorPoint (wirePoint w 40)
          (wires w 110) (w 30) (w 35)) ∧
        DoubleAccChain (wirePoint w 80) (wirePoint w 0) generatorPoint (wirePoint w 50)
          (wires w 115) (w 31) (w 36)) ∧
        DoubleAccChain (wirePoint w 90) (wirePoint w 0) generatorPoint (wirePoint w 60)
          (wires w 120) (w 32) (w 37)) ∧
        DoubleAccChain (wirePoint w 100) (wirePoint w 0) (lastPoint (w 39)) (wirePoint w 20)
          (wires w 125) (w 33) (w 38) := by
    unfold DoubleAdd4x.evalUnfiltered
    rw [allZero_append, allZero_append, allZero_append, allZero_append, allZero_append,
      allZero_append, allZero_append, allZero_append, allZero_append, hdouble 10 70, hdouble 40 80,
      hdouble 50 90, hselected, hchain 70 40, hchain 80 50, hchain 90 60, allZero_singleton,
      List.map_append, allZero_append, allZero_selected, allZero_selected]
    exact and_congr Iff.rfl (hlast (wirePoint w 20) _ _ _)
  rw [hsplit]
  constructor
  · rintro ⟨⟨⟨⟨⟨⟨⟨⟨⟨d0, d1⟩, d2⟩, hlgs⟩, d3⟩, hkeep⟩, c1⟩, c2⟩, c3⟩, c4⟩
    exact ⟨d0, d1, d2, hlgs, d3, hkeep, c1, c2, c3, c4⟩
  · rintro ⟨d0, d1, d2, hlgs, d3, hkeep, c1, c2, c3, c4⟩
    exact ⟨⟨⟨⟨⟨⟨⟨⟨⟨d0, d1⟩, d2⟩, hlgs⟩, d3⟩, hkeep⟩, c1⟩, c2⟩, c3⟩, c4⟩

/-- The constraints of the compression gate on the wires of the base field. -/
theorem compressionGate_allZero_iff (numOps : ℕ) (w : ℕ → F) :
    AllZero (CompressionGate.evalUnfiltered numOps w) ↔ ∀ j < numOps,
      CompressionGate (w (j * 16 + 15)) (wires w (j * 16)) (wirePoint w (j * 16 + 5)) := by
  have hop : ∀ j, AllZero (CompressionGate.evalOp w j) ↔
      CompressionGate (w (j * 16 + 15)) (wires w (j * 16)) (wirePoint w (j * 16 + 5)) := by
    intro j
    have hA : (capA : QuinticExtension) = ECGFP5_CAP_A := rfl
    have hB : (capB : QuinticExtension) = ECGFP5_CAP_B := rfl
    have hdiv : (adiv3 : QuinticExtension) = ECGFP5_A_DIV_3 := rfl
    unfold CompressionGate.evalOp
    rw [allZero_append, allZero_assertEqual, allZero_assertEqual, assertEqual_one, assertEqual_one,
      square_eq_pow, square_eq_pow, scale_eq, hA, hB, hdiv]
    rfl
  constructor
  · intro h j hj
    exact (hop j).mp fun c hc => h c (List.mem_flatMap.mpr ⟨j, List.mem_range.mpr hj, hc⟩)
  · intro h c hc
    obtain ⟨j, hj, hc⟩ := List.mem_flatMap.mp hc
    exact (hop j).mpr (h j (List.mem_range.mp hj)) c hc

end Zero

/-! ## Sums and doubles -/

section Points

variable {p p1 p2 p3 po : LocalPointEw} {P P1 P2 P3 : PointEw} {lambda : QuinticExtension}

/-- The first coordinate of a finite point. -/
def xCoord : PointEw → Option QuinticExtension
  | .zero => none
  | .some x _ _ => some x

/-- A finite point whose second coordinate is not zero. -/
def YNonzero : PointEw → Prop
  | .zero => False
  | .some _ y _ => y ≠ 0

theorem LocalPointEw.Holds.xCoord_eq (h : p.Holds P) : xCoord P = some p.x := by
  obtain ⟨_, rfl⟩ := h
  rfl

theorem LocalPointEw.Holds.xCoord_ne_iff (h1 : p1.Holds P1) (h2 : p2.Holds P2) :
    xCoord P1 ≠ xCoord P2 ↔ p1.x ≠ p2.x := by
  rw [h1.xCoord_eq, h2.xCoord_eq, ne_eq, Option.some.injEq]

theorem LocalPointEw.Holds.x_ne_of_yNonzero (h : p.Holds P) (hP : YNonzero P) :
    p.x ≠ ECGFP5_A_DIV_3 := by
  obtain ⟨h, rfl⟩ := h
  exact fun hx => hP (DoubleOdd.OnCurve.y_eq_zero_iff h |>.mpr hx)

/-- Finite wires are determined by their point. -/
theorem LocalPointEw.Holds.unique (h1 : p1.Holds P) (h2 : p2.Holds P) : p1 = p2 := by
  obtain ⟨h1, hP1⟩ := h1
  obtain ⟨h2, hP2⟩ := h2
  obtain ⟨hx, hy⟩ := Point.some.inj (hP1.trans hP2.symm)
  exact LocalPointEw.ext hx hy

/-- The slope of the line through two points. -/
def slope (p1 p2 : LocalPointEw) : QuinticExtension := (p2.y - p1.y) / (p2.x - p1.x)

theorem slope_mul (hx : p1.x ≠ p2.x) : slope p1 p2 * (p2.x - p1.x) = p2.y - p1.y :=
  div_mul_cancel₀ _ (sub_ne_zero.mpr hx.symm)

theorem slope_unique (hx : p1.x ≠ p2.x) (h : lambda * (p2.x - p1.x) = p2.y - p1.y) :
    lambda = slope p1 p2 :=
  eq_div_of_mul_eq (sub_ne_zero.mpr hx.symm) h

/-- The constraints of an addition hold for the sum and for no other point. -/
theorem addTwoPoints_iff (h1 : p1.Holds P1) (h2 : p2.Holds P2) (hx : p1.x ≠ p2.x) :
    AddTwoPoints 1 p1 p2 po ↔ po.Holds (P1 + P2) := by
  refine ⟨addTwoPoints_holds h1 h2 hx, fun h => ?_⟩
  rw [h.unique (slopeSum_holds h1 h2 hx (slope_mul hx))]
  exact addTwoPoints_slopeSum (slope_mul hx)

theorem addThreePoints_iff (h1 : p1.Holds P1) (h2 : p2.Holds P2) (h3 : p3.Holds P3)
    (hx : p1.x ≠ p2.x) (hx' : (slopeSum p1 p2 (slope p1 p2)).x ≠ p3.x) :
    AddThreePoints 1 p1 p2 p3 (slope p1 p2) po ↔ po.Holds (P1 + P2 + P3) := by
  refine ⟨addThreePoints_holds h1 h2 h3 hx hx', fun h => ?_⟩
  have hfirst := slopeSum_holds h1 h2 hx (slope_mul hx)
  rw [add_comm] at h
  obtain ⟨hX, hY⟩ := (addTwoPoints_iff h3 hfirst hx'.symm).mpr h
  rw [assertEqual_one] at hX hY
  refine ⟨assertEqual_one.mpr (slope_mul hx), assertEqual_one.mpr ?_, assertEqual_one.mpr ?_⟩
  · linear_combination hX
  · linear_combination hY

/-- The double of a point with `y ≠ 0` is finite, and the only one that satisfies the
constraints. -/
theorem p2Double_exists (h : p.Holds P) (hP : YNonzero P) :
    ∃ d : LocalPointEw, d.Holds (P + P) ∧ P2DoubleOfP1 1 p d := by
  have hx := h.x_ne_of_yNonzero hP
  obtain ⟨h, rfl⟩ := h
  let Q : ecgfp5.OddPoint := ⟨p.x, p.y, h, hx⟩
  exact ⟨ofOdd Q.double, ⟨Q.double.onCurve, Q.double_point_eq⟩, p2Double_double 1 Q⟩

theorem p2Double_iff (h : p.Holds P) (hP : YNonzero P) :
    P2DoubleOfP1 1 p po ↔ po.Holds (P + P) := by
  refine ⟨p2Double_holds h (h.x_ne_of_yNonzero hP), fun hpo => ?_⟩
  obtain ⟨d, hd, hdouble⟩ := p2Double_exists h hP
  rwa [hpo.unique hd]

end Points

/-! ## Steps -/

/-- One step: double, add `P` and the generator where their bits are set. -/
def doubleAddStep (P A : PointEw) (sp sg : Bool) : PointEw :=
  A + A + sp.toNat • P + sg.toNat • generator

/-- The doubled point has `y ≠ 0`, and the points of each addition have different `x`. -/
structure RegularStep (P A : PointEw) (sp sg : Bool) : Prop where
  double : YNonzero A
  first : sp = true → xCoord (A + A) ≠ xCoord P
  second : sg = true → xCoord (A + A + sp.toNat • P) ≠ xCoord generator

section Step

variable {acc p dbl out : LocalPointEw} {P A : PointEw} {lambda : QuinticExtension} {sp sg : Bool}

theorem bit_eq_one {b : Bool} : (b.toNat : F) = 1 ↔ b = true := by
  cases b
  · simp
  · simp

theorem bit_val (b : Bool) : (b.toNat : F).val = b.toNat := by
  cases b
  · rfl
  · rfl

theorem RegularStep.regularChain (hreg : RegularStep P A sp sg) (hp : p.Holds P)
    (hdbl : dbl.Holds (A + A))
    (hlambda : sp = true → sg = true → lambda * (p.x - dbl.x) = p.y - dbl.y) :
    RegularChain dbl p generatorPoint lambda (sp.toNat : F) (sg.toNat : F) where
  first h := (hdbl.xCoord_ne_iff hp).mp (hreg.first (bit_eq_one.mp h))
  second h0 h1 := by
    have hsp : sp = false := by
      cases sp
      · rfl
      · exact absurd h0 one_ne_zero
    have hx := hreg.second (bit_eq_one.mp h1)
    rw [hsp, Bool.toNat_false, zero_nsmul, add_zero] at hx
    exact (hdbl.xCoord_ne_iff generatorPoint_holds).mp hx
  third h0 h1 := by
    have hsp := bit_eq_one.mp h0
    have hx := hreg.second (bit_eq_one.mp h1)
    have hfirst := (hdbl.xCoord_ne_iff hp).mp (hreg.first hsp)
    have hsum := slopeSum_holds hdbl hp hfirst (hlambda hsp (bit_eq_one.mp h1))
    rw [hsp, Bool.toNat_true, one_nsmul] at hx
    exact (hsum.xCoord_ne_iff generatorPoint_holds).mp hx

/-- The constraints of a step determine its output. -/
theorem gateStep_holds (hreg : RegularStep P A sp sg) (hacc : acc.Holds A) (hp : p.Holds P)
    (hdouble : P2DoubleOfP1 1 acc dbl)
    (hchain : DoubleAccChain dbl p generatorPoint out lambda (sp.toNat : F) (sg.toNat : F)) :
    dbl.Holds (A + A) ∧ out.Holds (doubleAddStep P A sp sg) := by
  have hdbl := (p2Double_iff hacc hreg.double).mp hdouble
  have hlambda : sp = true → sg = true → lambda * (p.x - dbl.x) = p.y - dbl.y := by
    rintro rfl rfl
    have hslope := hchain.2.2.2.2.1
    rw [Bool.toNat_true, Nat.cast_one, mul_one, assertEqual_one] at hslope
    exact hslope
  have hout := doubleAccChain_holds hdbl hp generatorPoint_holds
    (hreg.regularChain hp hdbl hlambda) hchain
  rw [bit_val, bit_val] at hout
  exact ⟨hdbl, hout⟩

/-- The points of a step and the slope of its first addition satisfy the constraints. -/
theorem gateStep_chain (hreg : RegularStep P A sp sg) (hp : p.Holds P) (hdbl : dbl.Holds (A + A))
    (hlambda : sp = true → sg = true → lambda * (p.x - dbl.x) = p.y - dbl.y)
    (hout : out.Holds (doubleAddStep P A sp sg)) :
    DoubleAccChain dbl p generatorPoint out lambda (sp.toNat : F) (sg.toNat : F) := by
  have hchain := hreg.regularChain hp hdbl hlambda
  have hunselected : ∀ q r o, AddTwoPoints 0 q r o := fun q r o =>
    ⟨assertEqual_zero _ _, assertEqual_zero _ _⟩
  unfold doubleAddStep at hout
  unfold DoubleAccChain
  cases sp <;> cases sg
  · -- nothing is added
    rw [Bool.toNat_false, zero_nsmul, zero_nsmul, add_zero, add_zero] at hout
    obtain rfl := hout.unique hdbl
    simp only [Bool.toNat_false, Nat.cast_zero, sub_zero, mul_zero, mul_one]
    exact ⟨⟨trivial, trivial⟩, ⟨assertEqual_of_eq rfl, assertEqual_of_eq rfl⟩, hunselected _ _ _,
      hunselected _ _ _, assertEqual_zero _ _, assertEqual_zero _ _, assertEqual_zero _ _⟩
  · -- the generator alone
    rw [Bool.toNat_false, zero_nsmul, add_zero, Bool.toNat_true, one_nsmul] at hout
    have hadd := (addTwoPoints_iff hdbl generatorPoint_holds
      (hchain.second Nat.cast_zero Nat.cast_one)).mpr hout
    simp only [Bool.toNat_false, Bool.toNat_true, Nat.cast_zero, Nat.cast_one, sub_zero, sub_self,
      mul_zero, mul_one]
    exact ⟨⟨trivial, trivial⟩, ⟨assertEqual_zero _ _, assertEqual_zero _ _⟩, hunselected _ _ _,
      hadd, assertEqual_zero _ _, assertEqual_zero _ _, assertEqual_zero _ _⟩
  · -- the point alone
    rw [Bool.toNat_false, zero_nsmul, add_zero, Bool.toNat_true, one_nsmul] at hout
    have hadd := (addTwoPoints_iff hdbl hp (hchain.first Nat.cast_one)).mpr hout
    simp only [Bool.toNat_false, Bool.toNat_true, Nat.cast_zero, Nat.cast_one, sub_zero, sub_self,
      mul_zero, mul_one]
    exact ⟨⟨trivial, trivial⟩, ⟨assertEqual_zero _ _, assertEqual_zero _ _⟩, hadd,
      hunselected _ _ _, assertEqual_zero _ _, assertEqual_zero _ _, assertEqual_zero _ _⟩
  · -- both
    rw [Bool.toNat_true, one_nsmul, one_nsmul] at hout
    have hx := hchain.first Nat.cast_one
    obtain rfl := slope_unique hx (hlambda rfl rfl)
    have hadd := (addThreePoints_iff hdbl hp generatorPoint_holds hx
      (hchain.third Nat.cast_one Nat.cast_one)).mpr hout
    simp only [Bool.toNat_true, Nat.cast_one, sub_self, mul_zero, mul_one]
    exact ⟨⟨trivial, trivial⟩, ⟨assertEqual_zero _ _, assertEqual_zero _ _⟩, hunselected _ _ _,
      hunselected _ _ _, hadd⟩

end Step

end Doxa.Circuit
