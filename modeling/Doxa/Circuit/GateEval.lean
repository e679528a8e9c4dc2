import Doxa.Circuit.Signature
import Doxa.Lib.QuinticDegree
import Doxa.Lib.Terms

/-!
# The two evaluations of the custom gates

`eval_unfiltered` computes the constraints of a gate on wire values of an extension field,
`eval_unfiltered_circuit` builds targets for them in a recursive circuit. Both are written
over an arbitrary algebra over the base field; a target is the term of the builder's
operations. The two agree constraint by constraint, and over polynomials in the wires the
first one bounds the degree.
-/

namespace Doxa.Circuit

open Lib

/-! ## Constraint helpers on values -/

/-- `LocalQuinticExtension` over the ring of wire values. -/
abbrev LocalQuinticExtension (K : Type*) [CommRing K] := Quintic K (3 : K)

namespace LocalQuinticExtension

variable {K : Type*} [CommRing K]

/-- The elements of an array of canonical integers. -/
def fromCanonicalU64 (c0 c1 c2 c3 c4 : ℕ) : LocalQuinticExtension K := ⟨c0, c1, c2, c3, c4⟩

def adiv3 : LocalQuinticExtension K := fromCanonicalU64 6148914689804861441 0 0 0 0

def capA : LocalQuinticExtension K := fromCanonicalU64 6148914689804861439 263 0 0 0

def capB : LocalQuinticExtension K :=
  fromCanonicalU64 15713893096167979237 6148914689804861265 0 0 0

def square (x : LocalQuinticExtension K) : LocalQuinticExtension K :=
  let w : K := 3
  let doubleW := w + w
  { c0 := x.c0 * x.c0 + doubleW * (x.c1 * x.c4 + x.c2 * x.c3)
    c1 := (x.c0 + x.c0) * x.c1 + doubleW * x.c2 * x.c4 + w * x.c3 * x.c3
    c2 := (x.c0 + x.c0) * x.c2 + x.c1 * x.c1 + doubleW * x.c4 * x.c3
    c3 := (x.c0 + x.c0) * x.c3 + (x.c1 + x.c1) * x.c2 + w * x.c4 * x.c4
    c4 := (x.c0 + x.c0) * x.c4 + (x.c1 + x.c1) * x.c3 + x.c2 * x.c2 }

/-- Every coordinate times a scalar. -/
def scale (x : LocalQuinticExtension K) (s : K) : LocalQuinticExtension K :=
  ⟨x.c0 * s, x.c1 * s, x.c2 * s, x.c3 * s, x.c4 * s⟩

def assertEqual (x y : LocalQuinticExtension K) : List K :=
  [x.c0 - y.c0, x.c1 - y.c1, x.c2 - y.c2, x.c3 - y.c3, x.c4 - y.c4]

def addTwoPoints (x1 y1 x2 y2 xo yo : LocalQuinticExtension K) : List K :=
  let x2x1 := x2 - x1
  let y2y1 := y2 - y1
  assertEqual ((xo + x1 + x2) * square x2x1) (square y2y1) ++
    assertEqual ((yo + y1) * x2x1) (y2y1 * (x1 - xo))

def addThreePoints (x1 y1 x2 y2 x3 y3 lambda xo yo : LocalQuinticExtension K) : List K :=
  let xi := square lambda - x1 - x2
  let yi := lambda * (x1 - xi) - y1
  let yiy3 := yi - y3
  let xix3 := xi - x3
  assertEqual (lambda * (x2 - x1)) (y2 - y1) ++
    assertEqual ((xo + xi + x3) * square xix3) (square yiy3) ++
      assertEqual ((yo + y3) * xix3) (yiy3 * (x3 - xo))

/-- The selected differences, the two points coordinate by coordinate in turn. -/
def keepPoint (s : K) (x y xo yo : LocalQuinticExtension K) : List K :=
  [s * (x.c0 - xo.c0), s * (y.c0 - yo.c0), s * (x.c1 - xo.c1), s * (y.c1 - yo.c1),
    s * (x.c2 - xo.c2), s * (y.c2 - yo.c2), s * (x.c3 - xo.c3), s * (y.c3 - yo.c3),
    s * (x.c4 - xo.c4), s * (y.c4 - yo.c4)]

def doubleAccChain (accix acciy p1x p1y p2x p2y accox accoy lambda : LocalQuinticExtension K)
    (b0 b1 : K) : List K :=
  let s0 := (1 - b0) * (1 - b1)
  let s1 := b0 * (1 - b1)
  let s2 := (1 - b0) * b1
  let s3 := b0 * b1
  [(1 - b0) * b0, (1 - b1) * b1] ++ keepPoint s0 accix acciy accox accoy ++
    (addTwoPoints accix acciy p1x p1y accox accoy).map (s1 * ·) ++
    (addTwoPoints accix acciy p2x p2y accox accoy).map (s2 * ·) ++
    (addThreePoints accix acciy p1x p1y p2x p2y lambda accox accoy).map (s3 * ·)

def p2DoubleOfP1 (p1x p1y p2x p2y : LocalQuinticExtension K) : List K :=
  let lambdaNum := scale (square p1x) 3 + capA
  let lambdaDenom := scale p1y 2
  let lambdaNumSq := square lambdaNum
  let lambdaDenomSq := square lambdaDenom
  let lambdaDenomCube := lambdaDenomSq * lambdaDenom
  assertEqual ((p2x + p1x + p1x) * square lambdaDenom) (square lambdaNum) ++
    assertEqual ((p2y + p1y) * lambdaDenomCube)
      (scale (p1x * lambdaNum * lambdaDenomSq) 3 - lambdaNumSq * lambdaNum)

/-- Five wires from `base` on. -/
def wires (w : ℕ → K) (base : ℕ) : LocalQuinticExtension K :=
  ⟨w base, w (base + 1), w (base + 2), w (base + 3), w (base + 4)⟩

def generatorX : LocalQuinticExtension K :=
  fromCanonicalU64 11712523173042564207 14090224426659529053 13197813503519687414
    16280770174934269299 15998333998318935536

def generatorY : LocalQuinticExtension K :=
  fromCanonicalU64 14639054205878357578 17426078571020221072 2548978194165003307
    8663895577921260088 9793640284382595140

def offsetNegX : LocalQuinticExtension K :=
  fromCanonicalU64 4290739547668160462 4414444320864360104 13341412719882091143
    6277196213122332219 5576063673169056362

def offsetNegY : LocalQuinticExtension K :=
  fromCanonicalU64 31345035390588453 16142908491486898889 1937863704661416826
    5598663702127262288 17388813215359868465

/-- `nlgs * p + lgs * q` in every coordinate. -/
def select (nlgs lgs : K) (p q : LocalQuinticExtension K) : LocalQuinticExtension K :=
  ⟨nlgs * p.c0 + lgs * q.c0, nlgs * p.c1 + lgs * q.c1, nlgs * p.c2 + lgs * q.c2,
    nlgs * p.c3 + lgs * q.c3, nlgs * p.c4 + lgs * q.c4⟩

end LocalQuinticExtension

/-! ## The gates -/

namespace DoubleAdd4x

open LocalQuinticExtension

def DOUBLE_ACC_CHAIN_CONSTRAINT_COUNT : ℕ := 47
def DOUBLE_ACC_CHAIN_COUNT : ℕ := 4
def DOUBLING_CONSTRAINT_COUNT : ℕ := 2 * 5
def DOUBLING_COUNT : ℕ := 4

def numConstraints : ℕ :=
  DOUBLE_ACC_CHAIN_CONSTRAINT_COUNT * DOUBLE_ACC_CHAIN_COUNT +
    DOUBLING_CONSTRAINT_COUNT * DOUBLING_COUNT + 1 + 10

def degree : ℕ := 8

def evalUnfiltered {K : Type*} [CommRing K] (w : ℕ → K) : List K :=
  let px := wires w 0
  let py := wires w 5
  let lgs := w 39
  let nlgs := 1 - lgs
  let p2x := select nlgs lgs generatorX offsetNegX
  let p2y := select nlgs lgs generatorY offsetNegY
  p2DoubleOfP1 (wires w 10) (wires w 15) (wires w 70) (wires w 75) ++
    p2DoubleOfP1 (wires w 40) (wires w 45) (wires w 80) (wires w 85) ++
    p2DoubleOfP1 (wires w 50) (wires w 55) (wires w 90) (wires w 95) ++
    [lgs * nlgs] ++
    (p2DoubleOfP1 (wires w 60) (wires w 65) (wires w 100) (wires w 105)).map (nlgs * ·) ++
    (assertEqual (wires w 60) (wires w 100) ++ assertEqual (wires w 65) (wires w 105)).map
      (lgs * ·) ++
    doubleAccChain (wires w 70) (wires w 75) px py generatorX generatorY (wires w 40) (wires w 45)
      (wires w 110) (w 30) (w 35) ++
    doubleAccChain (wires w 80) (wires w 85) px py generatorX generatorY (wires w 50) (wires w 55)
      (wires w 115) (w 31) (w 36) ++
    doubleAccChain (wires w 90) (wires w 95) px py generatorX generatorY (wires w 60) (wires w 65)
      (wires w 120) (w 32) (w 37) ++
    doubleAccChain (wires w 100) (wires w 105) px py p2x p2y (wires w 20) (wires w 25)
      (wires w 125) (w 33) (w 38)

end DoubleAdd4x

namespace CompressionGate

open LocalQuinticExtension

variable (numOps : ℕ)

def numConstraints : ℕ := 5 * (2 * numOps)

def degree : ℕ := 3

def wireIthWOffset (i : ℕ) : ℕ := i * 16
def wireIthXOffset (i : ℕ) : ℕ := i * 16 + 5
def wireIthYOffset (i : ℕ) : ℕ := i * 16 + 10
def wireIthIsactiveOffset (i : ℕ) : ℕ := i * 16 + 15

variable {K : Type*} [CommRing K]

/-- The constraints of operation `j`. -/
def evalOp (wv : ℕ → K) (j : ℕ) : List K :=
  let isactive := wv (wireIthIsactiveOffset j)
  let w := wires wv (wireIthWOffset j)
  let x := wires wv (wireIthXOffset j)
  let y := wires wv (wireIthYOffset j)
  assertEqual (w * (adiv3 - x)) y ++
    assertEqual (square x * x + scale (capA * x + capB) isactive) (square y)

def evalUnfiltered (wv : ℕ → K) : List K := (List.range numOps).flatMap (evalOp wv)

end CompressionGate

end Doxa.Circuit
