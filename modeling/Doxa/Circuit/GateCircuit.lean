import Doxa.Circuit.GateEval

/-!
# The recursive evaluation of the custom gates

The targets `eval_unfiltered_circuit` builds, and their values: each helper on targets
computes the constraints of the helper on values.
-/

namespace Doxa.Circuit

open Lib

abbrev ExtensionTarget (K : Type*) := Term K

/-- Five targets. -/
structure QET (K : Type*) where
  c0 : ExtensionTarget K
  c1 : ExtensionTarget K
  c2 : ExtensionTarget K
  c3 : ExtensionTarget K
  c4 : ExtensionTarget K

namespace QET

open Term

variable {K : Type*} [CommRing K] [Algebra F K]

/-! ## Constraint helpers on targets -/

def add (x y : QET K) : QET K :=
  ⟨.add x.c0 y.c0, .add x.c1 y.c1, .add x.c2 y.c2, .add x.c3 y.c3, .add x.c4 y.c4⟩

def sub (x y : QET K) : QET K :=
  ⟨.sub x.c0 y.c0, .sub x.c1 y.c1, .sub x.c2 y.c2, .sub x.c3 y.c3, .sub x.c4 y.c4⟩

/-- The constant of an element of the base field. -/
def basefield (c : F) : ExtensionTarget K := constant (algebraMap F K c)

def mul (x y : QET K) : QET K :=
  let w : ExtensionTarget K := basefield 3
  { c0 := .add (.mul x.c0 y.c0) (.mul w (addMany
      [.mul x.c1 y.c4, .mul x.c2 y.c3, .mul x.c3 y.c2, .mul x.c4 y.c1]))
    c1 := addMany [.mul x.c0 y.c1, .mul x.c1 y.c0,
      .mul w (addMany [.mul x.c2 y.c4, .mul x.c3 y.c3, .mul x.c4 y.c2])]
    c2 := addMany [.mul x.c0 y.c2, .mul x.c1 y.c1, .mul x.c2 y.c0,
      .mul w (.add (.mul x.c3 y.c4) (.mul x.c4 y.c3))]
    c3 := addMany [.mul x.c0 y.c3, .mul x.c1 y.c2, .mul x.c2 y.c1, .mul x.c3 y.c0,
      .mul w (.mul x.c4 y.c4)]
    c4 := addMany [.mul x.c0 y.c4, .mul x.c1 y.c3, .mul x.c2 y.c2, .mul x.c3 y.c1,
      .mul x.c4 y.c0] }

def square (x : QET K) : QET K := x.mul x

def mulBasef (x : QET K) (scalar : F) : QET K :=
  let s : ExtensionTarget K := basefield scalar
  ⟨.mul x.c0 s, .mul x.c1 s, .mul x.c2 s, .mul x.c3 s, .mul x.c4 s⟩

def assertEqual (x y : QET K) : List (ExtensionTarget K) :=
  [.sub x.c0 y.c0, .sub x.c1 y.c1, .sub x.c2 y.c2, .sub x.c3 y.c3, .sub x.c4 y.c4]

def addTwoPoints (x1 y1 x2 y2 xo yo : QET K) : List (ExtensionTarget K) :=
  let x2x1 := x2.sub x1
  let y2y1 := y2.sub y1
  assertEqual (((xo.add x1).add x2).mul x2x1.square) y2y1.square ++
    assertEqual ((yo.add y1).mul x2x1) (y2y1.mul (x1.sub xo))

def addThreePoints (x1 y1 x2 y2 x3 y3 lambda xo yo : QET K) : List (ExtensionTarget K) :=
  let xi := (lambda.square.sub x1).sub x2
  let yi := (lambda.mul (x1.sub xi)).sub y1
  let yiy3 := yi.sub y3
  let xix3 := xi.sub x3
  assertEqual (lambda.mul (x2.sub x1)) (y2.sub y1) ++
    assertEqual (((xo.add xi).add x3).mul xix3.square) yiy3.square ++
      assertEqual ((yo.add y3).mul xix3) (yiy3.mul (x3.sub xo))

def keepPoint (s : ExtensionTarget K) (x y xo yo : QET K) : List (ExtensionTarget K) :=
  [.mul s (.sub x.c0 xo.c0), .mul s (.sub y.c0 yo.c0), .mul s (.sub x.c1 xo.c1),
    .mul s (.sub y.c1 yo.c1), .mul s (.sub x.c2 xo.c2), .mul s (.sub y.c2 yo.c2),
    .mul s (.sub x.c3 xo.c3), .mul s (.sub y.c3 yo.c3), .mul s (.sub x.c4 xo.c4),
    .mul s (.sub y.c4 yo.c4)]

def doubleAccChain (accix acciy p1x p1y p2x p2y accox accoy lambda : QET K)
    (b0 b1 : ExtensionTarget K) : List (ExtensionTarget K) :=
  let one : ExtensionTarget K := constant 1
  let nb0 := Term.sub one b0
  let nb1 := Term.sub one b1
  let s0 := Term.mul nb0 nb1
  let s1 := Term.mul b0 nb1
  let s2 := Term.mul nb0 b1
  let s3 := Term.mul b0 b1
  [.mul nb0 b0, .mul nb1 b1] ++ keepPoint s0 accix acciy accox accoy ++
    (addTwoPoints accix acciy p1x p1y accox accoy).map (Term.mul s1) ++
    (addTwoPoints accix acciy p2x p2y accox accoy).map (Term.mul s2) ++
    (addThreePoints accix acciy p1x p1y p2x p2y lambda accox accoy).map (Term.mul s3)

/-- The constants of an array, through the base field. -/
def fromBasefield (x : QuinticExtension) : QET K :=
  ⟨basefield x.c0, basefield x.c1, basefield x.c2, basefield x.c3, basefield x.c4⟩

/-- The constants of an element of the extension. -/
def constantExtension (x : LocalQuinticExtension K) : QET K :=
  ⟨constant x.c0, constant x.c1, constant x.c2, constant x.c3, constant x.c4⟩

def p2DoubleOfP1 (p1x p1y p2x p2y : QET K) : List (ExtensionTarget K) :=
  let capA : QET K := fromBasefield LocalQuinticExtension.capA
  let lambdaNum := (p1x.square.mulBasef 3).add capA
  let lambdaDenom := p1y.mulBasef 2
  let ld2 := lambdaDenom.square
  let ld3 := ld2.mul lambdaDenom
  let ln2 := lambdaNum.square
  let ln3 := ln2.mul lambdaNum
  assertEqual ((p2x.add (p1x.mulBasef 2)).mul lambdaDenom.square) lambdaNum.square ++
    assertEqual ((p2y.add p1y).mul ld3) ((((p1x.mul lambdaNum).mul ld2).mulBasef 3).sub ln3)

/-- Five wires from `base` on. -/
def wires (base : ℕ) : QET K :=
  ⟨.wire base, .wire (base + 1), .wire (base + 2), .wire (base + 3), .wire (base + 4)⟩

def select (nlgs lgs : ExtensionTarget K) (p q : QET K) : QET K :=
  ⟨.add (.mul nlgs p.c0) (.mul lgs q.c0), .add (.mul nlgs p.c1) (.mul lgs q.c1),
    .add (.mul nlgs p.c2) (.mul lgs q.c2), .add (.mul nlgs p.c3) (.mul lgs q.c3),
    .add (.mul nlgs p.c4) (.mul lgs q.c4)⟩

/-! ## Their values -/

def value (w : ℕ → K) (x : QET K) : LocalQuinticExtension K :=
  ⟨x.c0.eval w, x.c1.eval w, x.c2.eval w, x.c3.eval w, x.c4.eval w⟩

end QET

section Values

variable {K : Type*} [CommRing K] (w : ℕ → K) (x y : QET K)

@[simp] theorem QET.value_add : (x.add y).value w = x.value w + y.value w := rfl

@[simp] theorem QET.value_sub : (x.sub y).value w = x.value w - y.value w := rfl

@[simp] theorem QET.value_wires (base : ℕ) :
    (QET.wires base).value w = LocalQuinticExtension.wires w base := rfl

@[simp] theorem QET.value_constantExtension (c : LocalQuinticExtension K) :
    (QET.constantExtension c).value w = c := rfl

@[simp] theorem QET.value_select (nlgs lgs : ExtensionTarget K) :
    (QET.select nlgs lgs x y).value w =
      LocalQuinticExtension.select (nlgs.eval w) (lgs.eval w) (x.value w) (y.value w) := rfl

@[simp] theorem QET.eval_assertEqual : (QET.assertEqual x y).map (Term.eval w) =
    LocalQuinticExtension.assertEqual (x.value w) (y.value w) := rfl

@[simp] theorem QET.eval_keepPoint (s : ExtensionTarget K) (xo yo : QET K) :
    (QET.keepPoint s x y xo yo).map (Term.eval w) = LocalQuinticExtension.keepPoint (s.eval w)
      (x.value w) (y.value w) (xo.value w) (yo.value w) := rfl

/-- A selected list of constraints. -/
theorem eval_map_mul (s : ExtensionTarget K) (cs : List (ExtensionTarget K)) :
    (cs.map (Term.mul s)).map (Term.eval w) = (cs.map (Term.eval w)).map (s.eval w * ·) := by
  rw [List.map_map, List.map_map]
  rfl

theorem LocalQuinticExtension.square_eq (x : LocalQuinticExtension K) : square x = x * x := by
  ext <;> simp [square] <;> ring

variable [Algebra F K]

theorem algebraMap_three : algebraMap F K 3 = 3 := map_ofNat _ 3

theorem algebraMap_two : algebraMap F K 2 = 2 := map_ofNat _ 2

namespace QET

@[simp] theorem eval_basefield (c : F) :
    (basefield c : ExtensionTarget K).eval w = algebraMap F K c := rfl

@[simp] theorem value_mul : (x.mul y).value w = x.value w * y.value w := by
  have hw := algebraMap_three (K := K)
  ext <;> simp [value, mul, hw] <;> ring

@[simp] theorem value_square : x.square.value w = LocalQuinticExtension.square (x.value w) := by
  rw [square, value_mul, LocalQuinticExtension.square_eq]

@[simp] theorem value_mulBasef (c : F) : (x.mulBasef c).value w =
    LocalQuinticExtension.scale (x.value w) (algebraMap F K c) := rfl

theorem value_capA : (fromBasefield LocalQuinticExtension.capA : QET K).value w =
    LocalQuinticExtension.capA := by
  ext <;> exact map_natCast (algebraMap F K) _

theorem eval_addTwoPoints (x1 y1 x2 y2 xo yo : QET K) :
    (addTwoPoints x1 y1 x2 y2 xo yo).map (Term.eval w) =
      LocalQuinticExtension.addTwoPoints (x1.value w) (y1.value w) (x2.value w) (y2.value w)
        (xo.value w) (yo.value w) := by
  simp [addTwoPoints, LocalQuinticExtension.addTwoPoints]

theorem eval_addThreePoints (x1 y1 x2 y2 x3 y3 lambda xo yo : QET K) :
    (addThreePoints x1 y1 x2 y2 x3 y3 lambda xo yo).map (Term.eval w) =
      LocalQuinticExtension.addThreePoints (x1.value w) (y1.value w) (x2.value w) (y2.value w)
        (x3.value w) (y3.value w) (lambda.value w) (xo.value w) (yo.value w) := by
  simp [addThreePoints, LocalQuinticExtension.addThreePoints]

theorem eval_doubleAccChain (accix acciy p1x p1y p2x p2y accox accoy lambda : QET K)
    (b0 b1 : ExtensionTarget K) :
    (doubleAccChain accix acciy p1x p1y p2x p2y accox accoy lambda b0 b1).map (Term.eval w) =
      LocalQuinticExtension.doubleAccChain (accix.value w) (acciy.value w) (p1x.value w)
        (p1y.value w) (p2x.value w) (p2y.value w) (accox.value w) (accoy.value w) (lambda.value w)
        (b0.eval w) (b1.eval w) := by
  simp only [doubleAccChain, List.map_append, eval_map_mul, eval_addTwoPoints, eval_addThreePoints,
    eval_keepPoint]
  rfl

theorem eval_p2DoubleOfP1 (p1x p1y p2x p2y : QET K) :
    (p2DoubleOfP1 p1x p1y p2x p2y).map (Term.eval w) =
      LocalQuinticExtension.p2DoubleOfP1 (p1x.value w) (p1y.value w) (p2x.value w)
        (p2y.value w) := by
  have htwo : LocalQuinticExtension.scale (p1x.value w) 2 = p1x.value w + p1x.value w := by
    ext <;> simp [LocalQuinticExtension.scale] <;> ring
  simp only [p2DoubleOfP1, LocalQuinticExtension.p2DoubleOfP1, List.map_append, eval_assertEqual,
    value_add, value_sub, value_mul, value_square, value_mulBasef, value_capA, algebraMap_two,
    algebraMap_three, htwo, add_assoc]

end QET

end Values

/-! ## The gates -/

namespace DoubleAdd4x

open QET

variable {K : Type*} [CommRing K] [Algebra F K]

def evalUnfilteredCircuit : List (ExtensionTarget K) :=
  let gx : QET K := constantExtension LocalQuinticExtension.generatorX
  let gy : QET K := constantExtension LocalQuinticExtension.generatorY
  let noffx : QET K := constantExtension LocalQuinticExtension.offsetNegX
  let noffy : QET K := constantExtension LocalQuinticExtension.offsetNegY
  let px : QET K := wires 0
  let py : QET K := wires 5
  let lgs : ExtensionTarget K := .wire 39
  let nlgs := Term.sub (.constant 1) lgs
  let p2x := select nlgs lgs gx noffx
  let p2y := select nlgs lgs gy noffy
  p2DoubleOfP1 (wires 10) (wires 15) (wires 70) (wires 75) ++
    p2DoubleOfP1 (wires 40) (wires 45) (wires 80) (wires 85) ++
    p2DoubleOfP1 (wires 50) (wires 55) (wires 90) (wires 95) ++
    [.mul nlgs lgs] ++
    (p2DoubleOfP1 (wires 60) (wires 65) (wires 100) (wires 105)).map (fun c => .mul c nlgs) ++
    (assertEqual (wires 60) (wires 100) ++ assertEqual (wires 65) (wires 105)).map
      (fun c => .mul c lgs) ++
    doubleAccChain (wires 70) (wires 75) px py gx gy (wires 40) (wires 45) (wires 110) (.wire 30)
      (.wire 35) ++
    doubleAccChain (wires 80) (wires 85) px py gx gy (wires 50) (wires 55) (wires 115) (.wire 31)
      (.wire 36) ++
    doubleAccChain (wires 90) (wires 95) px py gx gy (wires 60) (wires 65) (wires 120) (.wire 32)
      (.wire 37) ++
    doubleAccChain (wires 100) (wires 105) px py p2x p2y (wires 20) (wires 25) (wires 125)
      (.wire 33) (.wire 38)

theorem evalUnfilteredCircuit_eq (w : ℕ → K) :
    (evalUnfilteredCircuit (K := K)).map (Term.eval w) = evalUnfiltered w := by
  have hswap : ∀ (s : ExtensionTarget K) (cs : List (ExtensionTarget K)),
      (cs.map fun c => Term.mul c s).map (Term.eval w) =
        (cs.map (Term.eval w)).map (s.eval w * ·) := by
    intro s cs
    rw [List.map_map, List.map_map]
    exact List.map_congr_left fun c _ => mul_comm _ _
  simp only [evalUnfilteredCircuit, evalUnfiltered, List.map_append, hswap, eval_p2DoubleOfP1,
    eval_doubleAccChain, eval_assertEqual, value_wires, value_constantExtension, value_select,
    List.map_cons, List.map_nil, Term.eval_mul, Term.eval_sub, Term.eval_constant, Term.eval_wire,
    mul_comm (1 - w 39) (w 39)]

end DoubleAdd4x

namespace CompressionGate

open QET

variable {K : Type*} [CommRing K] [Algebra F K]

def evalOpCircuit (j : ℕ) : List (ExtensionTarget K) :=
  let adiv3 : QET K := constantExtension LocalQuinticExtension.adiv3
  let capa : QET K := constantExtension LocalQuinticExtension.capA
  let capb : QET K := constantExtension LocalQuinticExtension.capB
  let isactv : ExtensionTarget K := .wire (wireIthIsactiveOffset j)
  let w : QET K := wires (wireIthWOffset j)
  let x : QET K := wires (wireIthXOffset j)
  let y : QET K := wires (wireIthYOffset j)
  let x3 := x.square.mul x
  let capaxCapb := (capa.mul x).add capb
  let selected : QET K := ⟨.mul isactv capaxCapb.c0, .mul isactv capaxCapb.c1,
    .mul isactv capaxCapb.c2, .mul isactv capaxCapb.c3, .mul isactv capaxCapb.c4⟩
  assertEqual (w.mul (adiv3.sub x)) y ++ assertEqual (x3.add selected) y.square

def evalUnfilteredCircuit (numOps : ℕ) : List (ExtensionTarget K) :=
  (List.range numOps).flatMap evalOpCircuit

theorem evalOpCircuit_eq (w : ℕ → K) (j : ℕ) :
    (evalOpCircuit (K := K) j).map (Term.eval w) = evalOp w j := by
  have hselected : ∀ (s : ExtensionTarget K) (x : QET K),
      (⟨.mul s x.c0, .mul s x.c1, .mul s x.c2, .mul s x.c3, .mul s x.c4⟩ : QET K).value w =
        LocalQuinticExtension.scale (x.value w) (s.eval w) := by
    intro s x
    ext <;> exact mul_comm _ _
  simp only [evalOpCircuit, evalOp, List.map_append, eval_assertEqual, value_mul, value_sub,
    value_add, value_square, value_wires, value_constantExtension, hselected, Term.eval_wire]

theorem evalUnfilteredCircuit_eq (numOps : ℕ) (w : ℕ → K) :
    (evalUnfilteredCircuit (K := K) numOps).map (Term.eval w) = evalUnfiltered numOps w := by
  rw [evalUnfilteredCircuit, evalUnfiltered, List.map_flatMap]
  exact congrArg (fun f => List.flatMap f _) (funext fun j => evalOpCircuit_eq w j)

end CompressionGate

end Doxa.Circuit
