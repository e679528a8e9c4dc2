import Doxa.KeccakStark.Columns
import Doxa.KeccakStark.Constants
import Mathlib.Algebra.BigOperators.Fin
import Mathlib.Algebra.BigOperators.Group.List.Lemmas
import Mathlib.Tactic.Ring

/-!
# The equations of the Keccak table

`eval_packed_generic` evaluates the constraints on a row and the next one in the field of the
prover; `eval_ext_circuit` evaluates them in the circuit that verifies the proof, with the gates
of an extension field. The two are written separately, with other associations, signs and orders
of summation, and give the same values one by one over every commutative ring.
-/

namespace Doxa.KeccakStark

variable {K : Type*} [CommRing K]

/-- What a constraint consumer is given: a value that is to be zero in every row, in every row
but the last, or in the first row. -/
inductive Constraint (K : Type*)
  | constraint (value : K)
  | transition (value : K)
  | firstRow (value : K)

open Constraint

/-! ## Bits in the field -/

def xorGen (x y : K) : K := x + y - x * (2 * y)

def xor3Gen (x y z : K) : K := xorGen x (xorGen y z)

def andnGen (x y : K) : K := (1 - x) * y

def lo (z : Fin 32) : Fin 64 := ⟨z.val, by omega⟩

def hi (z : Fin 32) : Fin 64 := ⟨32 + z.val, by omega⟩

/-- `(0..32).rev().fold(ZEROS, |acc, z| acc.doubles() + get_bit(z))`. -/
def computedLo (getBit : Fin 64 → K) : K :=
  (List.finRange 32).reverse.foldl (fun acc z => 2 * acc + getBit (lo z)) 0

/-- `(32..64).rev().fold(ZEROS, |acc, z| acc.doubles() + get_bit(z))`. -/
def computedHi (getBit : Fin 64 → K) : K :=
  (List.finRange 32).reverse.foldl (fun acc z => 2 * acc + getBit (hi z)) 0

theorem foldl_double {n : ℕ} (f : Fin n → K) :
    (List.finRange n).reverse.foldl (fun acc z => 2 * acc + f z) 0 = ∑ z, f z * 2 ^ z.val := by
  rw [List.foldl_reverse]
  induction n with
  | zero => simp
  | succ n ih =>
    have hrest : ∑ z : Fin n, f z.succ * 2 ^ (z.val + 1) = 2 * ∑ z : Fin n, f z.succ * 2 ^ z.val := by
      rw [Finset.mul_sum]
      exact Finset.sum_congr rfl fun z _ => by ring
    rw [List.finRange_succ, List.foldr_cons, List.foldr_map, ih fun z => f z.succ,
      Fin.sum_univ_succ]
    simp only [Fin.val_succ, hrest, Fin.val_zero, pow_zero, mul_one]
    exact add_comm _ _

theorem computedLo_eq (getBit : Fin 64 → K) :
    computedLo getBit = ∑ z : Fin 32, getBit (lo z) * 2 ^ z.val :=
  foldl_double fun z => getBit (lo z)

theorem computedHi_eq (getBit : Fin 64 → K) :
    computedHi getBit = ∑ z : Fin 32, getBit (hi z) * 2 ^ z.val :=
  foldl_double fun z => getBit (hi z)

/-! ## In the field of the prover -/

section Packed

variable (localValues nextValues : Row K)

def sumFlags (values : Row K) : K := ((List.range NUM_ROUNDS).map fun i => values (regStep i)).sum

def evalRoundFlags : List (Constraint K) :=
  let currentAnyFlag := sumFlags localValues
  let nextAnyFlag := sumFlags nextValues
  let lastRoundFlag := localValues (regStep (NUM_ROUNDS - 1))
  let paddingConstraint := (nextAnyFlag - 1) * currentAnyFlag * (lastRoundFlag - 1)
  (List.range NUM_ROUNDS).map (fun i =>
      constraint (localValues (regStep i) * (localValues (regStep i) - 1))) ++
    [firstRow (localValues (regStep 0) - 1)] ++
    (List.range' 1 (NUM_ROUNDS - 1)).map (fun i => firstRow (localValues (regStep i))) ++
    (List.range NUM_ROUNDS).map (fun i =>
      transition (nextAnyFlag * (nextValues (regStep ((i + 1) % NUM_ROUNDS)) -
        localValues (regStep i)) + paddingConstraint)) ++
    [transition (nextAnyFlag * (currentAnyFlag - 1))]

/-- The filter is off in all rows but those of the last round. -/
def notFinalStep : K := 1 - localValues (regStep (NUM_ROUNDS - 1))

def evalTimestamp : Constraint K :=
  constraint (sumFlags localValues * notFinalStep localValues *
    (nextValues TIMESTAMP - localValues TIMESTAMP))

def evalCPrime (x : Fin 5) (z : Fin 64) : Constraint K :=
  let xor := xor3Gen (localValues (regC x z)) (localValues (regC (x + 4) z))
    (localValues (regC (x + 1) (z + 63)))
  constraint (localValues (regCPrime x z) - xor)

/-- `A[x, y, z]` from `A'`, `C` and `C'`. -/
def inputBit (x y : Fin 5) (z : Fin 64) : K :=
  xor3Gen (localValues (regAPrime x y z)) (localValues (regC x z)) (localValues (regCPrime x z))

def evalInput (x y : Fin 5) : List (Constraint K) :=
  [constraint (computedLo (inputBit localValues x y) - localValues (regA x y)),
    constraint (computedHi (inputBit localValues x y) - localValues (regA x y + 1))]

def parityDiff (x : Fin 5) (z : Fin 64) : K :=
  ((List.finRange 5).map fun i => localValues (regAPrime x i z)).sum - localValues (regCPrime x z)

def evalParity (x : Fin 5) (z : Fin 64) : Constraint K :=
  let diff := parityDiff localValues x z
  constraint (diff * (diff - 2) * (diff - 4))

/-- `A''[x, y, z]` from `B`. -/
def chiBit (x y : Fin 5) (z : Fin 64) : K :=
  xorGen (localValues (regB x y z))
    (andnGen (localValues (regB (x + 1) y z)) (localValues (regB (x + 2) y z)))

def evalChi (x y : Fin 5) : List (Constraint K) :=
  [constraint (computedLo (chiBit localValues x y) - localValues (regAPrimePrime x y)),
    constraint (computedHi (chiBit localValues x y) - localValues (regAPrimePrime x y + 1))]

/-- Bit `i` of the constant of the round whose flag is set. -/
def rcBit (i : Fin 64) : K :=
  (List.range NUM_ROUNDS).foldl
    (fun acc r => acc + localValues (regStep r) * (rcValueBit r i.val : K)) 0

def xoredBit (i : Fin 64) : K := xorGen (localValues (regAPrimePrime00Bit i)) (rcBit localValues i)

def evalIota : List (Constraint K) :=
  let bits := fun i => localValues (regAPrimePrime00Bit i)
  [constraint (computedLo bits - localValues (regAPrimePrime 0 0)),
    constraint (computedHi bits - localValues (regAPrimePrime 0 0 + 1)),
    constraint (computedLo (xoredBit localValues) - localValues (regAPrimePrimePrime 0 0)),
    constraint (computedHi (xoredBit localValues) - localValues (regAPrimePrimePrime 0 0 + 1))]

def evalOutput (x y : Fin 5) : List (Constraint K) :=
  let notLastRound := notFinalStep localValues
  [transition (notLastRound * (localValues (regAPrimePrimePrime x y) - nextValues (regA x y))),
    transition (notLastRound *
      (localValues (regAPrimePrimePrime x y + 1) - nextValues (regA x y + 1)))]

/-- `for x in 0..5 { for i in .. { body(x, i) } }`. -/
def forXZ {n : ℕ} (body : Fin 5 → Fin n → List (Constraint K)) : List (Constraint K) :=
  (List.finRange 5).flatMap fun x => (List.finRange n).flatMap (body x)

def evalPackedGeneric : List (Constraint K) :=
  evalRoundFlags localValues nextValues ++
  [evalTimestamp localValues nextValues] ++
  forXZ (fun x z => [evalCPrime localValues x z]) ++
  forXZ (evalInput localValues) ++
  forXZ (fun x z => [evalParity localValues x z]) ++
  forXZ (evalChi localValues) ++
  evalIota localValues ++
  forXZ (evalOutput localValues nextValues)

end Packed

/-! ## In the circuit -/

section Circuit

/-- `mul_sub_extension`. -/
def mulSub (a b c : K) : K := a * b - c

/-- `mul_add_extension`. -/
def mulAdd (a b c : K) : K := a * b + c

/-- `arithmetic_extension`. -/
def arithmetic (const0 const1 multiplicand0 multiplicand1 addend : K) : K :=
  const0 * multiplicand0 * multiplicand1 + const1 * addend

/-- `reduce_with_powers_ext_circuit`, which starts with the last term. -/
def reduceWithPowers (terms : List K) (alpha : K) : K :=
  terms.reverse.foldl (fun acc term => mulAdd acc alpha term) 0

def xorGenCircuit (x y : K) : K := arithmetic (-2) 1 x y (x + y)

def xor3GenCircuit (x y z : K) : K := xorGenCircuit (xorGenCircuit x y) z

def andnGenCircuit (x y : K) : K := arithmetic (-1) 1 x y y

variable (localValues nextValues : Row K)

def evalRoundFlagsRecursively : List (Constraint K) :=
  let currentAnyFlag := sumFlags localValues
  let nextAnyFlag := sumFlags nextValues
  let lastRoundFlag := localValues (regStep (NUM_ROUNDS - 1))
  let tmp := mulSub currentAnyFlag nextAnyFlag currentAnyFlag
  let paddingConstraint := mulSub tmp lastRoundFlag tmp
  (List.range NUM_ROUNDS).map (fun i =>
      constraint (mulSub (localValues (regStep i)) (localValues (regStep i))
        (localValues (regStep i)))) ++
    [firstRow (localValues (regStep 0) - 1)] ++
    (List.range' 1 (NUM_ROUNDS - 1)).map (fun i => firstRow (localValues (regStep i))) ++
    (List.range NUM_ROUNDS).map (fun i =>
      let flagDiff := nextValues (regStep ((i + 1) % NUM_ROUNDS)) - localValues (regStep i)
      transition (mulAdd nextAnyFlag flagDiff paddingConstraint)) ++
    [transition (mulSub nextAnyFlag currentAnyFlag nextAnyFlag)]

def evalTimestampCircuit : Constraint K :=
  constraint [sumFlags localValues, notFinalStep localValues,
    nextValues TIMESTAMP - localValues TIMESTAMP].prod

def evalCPrimeCircuit (x : Fin 5) (z : Fin 64) : Constraint K :=
  let xor := xor3GenCircuit (localValues (regC x z)) (localValues (regC (x + 4) z))
    (localValues (regC (x + 1) (z + 63)))
  constraint (localValues (regCPrime x z) - xor)

/-- The bits of the low and of the high limb. -/
def bitsLo (getBit : Fin 64 → K) : List K := (List.finRange 32).map fun z => getBit (lo z)

def bitsHi (getBit : Fin 64 → K) : List K := (List.finRange 32).map fun z => getBit (hi z)

def evalInputCircuit (x y : Fin 5) : List (Constraint K) :=
  let getBit := fun z => xor3GenCircuit (localValues (regAPrime x y z)) (localValues (regC x z))
    (localValues (regCPrime x z))
  [constraint (reduceWithPowers (bitsLo getBit) 2 - localValues (regA x y)),
    constraint (reduceWithPowers (bitsHi getBit) 2 - localValues (regA x y + 1))]

def evalParityCircuit (x : Fin 5) (z : Fin 64) : Constraint K :=
  let diff := parityDiff localValues x z
  constraint [diff, diff - 2, diff - 4].prod

def evalChiCircuit (x y : Fin 5) : List (Constraint K) :=
  let getBit := fun z => xorGenCircuit (localValues (regB x y z))
    (andnGenCircuit (localValues (regB (x + 1) y z)) (localValues (regB (x + 2) y z)))
  [constraint (reduceWithPowers (bitsLo getBit) 2 - localValues (regAPrimePrime x y)),
    constraint (reduceWithPowers (bitsHi getBit) 2 - localValues (regAPrimePrime x y + 1))]

def rcBitCircuit (i : Fin 64) : K :=
  (List.range NUM_ROUNDS).foldl
    (fun acc r => mulAdd (localValues (regStep r)) (rcValueBit r i.val : K) acc) 0

def evalIotaCircuit : List (Constraint K) :=
  let bits := fun i => localValues (regAPrimePrime00Bit i)
  let getXoredBit := fun i => xorGenCircuit (bits i) (rcBitCircuit localValues i)
  [constraint (reduceWithPowers (bitsLo bits) 2 - localValues (regAPrimePrime 0 0)),
    constraint (reduceWithPowers (bitsHi bits) 2 - localValues (regAPrimePrime 0 0 + 1)),
    constraint (reduceWithPowers (bitsLo getXoredBit) 2 - localValues (regAPrimePrimePrime 0 0)),
    constraint (reduceWithPowers (bitsHi getXoredBit) 2 -
      localValues (regAPrimePrimePrime 0 0 + 1))]

def evalOutputCircuit (x y : Fin 5) : List (Constraint K) :=
  let isLastRound := localValues (regStep (NUM_ROUNDS - 1))
  let diffLo := nextValues (regA x y) - localValues (regAPrimePrimePrime x y)
  let diffHi := nextValues (regA x y + 1) - localValues (regAPrimePrimePrime x y + 1)
  [transition (mulSub isLastRound diffLo diffLo), transition (mulSub isLastRound diffHi diffHi)]

def evalExtCircuit : List (Constraint K) :=
  evalRoundFlagsRecursively localValues nextValues ++
  [evalTimestampCircuit localValues nextValues] ++
  forXZ (fun x z => [evalCPrimeCircuit localValues x z]) ++
  forXZ (evalInputCircuit localValues) ++
  forXZ (fun x z => [evalParityCircuit localValues x z]) ++
  forXZ (evalChiCircuit localValues) ++
  evalIotaCircuit localValues ++
  forXZ (evalOutputCircuit localValues nextValues)

theorem xorGenCircuit_eq (x y : K) : xorGenCircuit x y = xorGen x y := by
  unfold xorGenCircuit arithmetic xorGen
  ring

theorem xor3GenCircuit_eq (x y z : K) : xor3GenCircuit x y z = xor3Gen x y z := by
  simp only [xor3GenCircuit, xor3Gen, xorGenCircuit_eq, xorGen]
  ring

theorem andnGenCircuit_eq (x y : K) : andnGenCircuit x y = andnGen x y := by
  unfold andnGenCircuit arithmetic andnGen
  ring

theorem reduceWithPowers_map {n : ℕ} (f : Fin n → K) :
    reduceWithPowers ((List.finRange n).map f) 2 = ∑ z, f z * 2 ^ z.val := by
  rw [← foldl_double, reduceWithPowers, ← List.map_reverse, List.foldl_map]
  simp only [mulAdd, mul_comm]

theorem reduce_bitsLo (getBit : Fin 64 → K) :
    reduceWithPowers (bitsLo getBit) 2 = computedLo getBit :=
  (reduceWithPowers_map _).trans (computedLo_eq getBit).symm

theorem reduce_bitsHi (getBit : Fin 64 → K) :
    reduceWithPowers (bitsHi getBit) 2 = computedHi getBit :=
  (reduceWithPowers_map _).trans (computedHi_eq getBit).symm

theorem evalRoundFlagsRecursively_eq :
    evalRoundFlagsRecursively localValues nextValues = evalRoundFlags localValues nextValues := by
  have hmulSub : ∀ a b : K, mulSub a b a = a * (b - 1) := fun a b => by
    unfold mulSub
    ring
  simp only [evalRoundFlagsRecursively, evalRoundFlags, hmulSub, mulAdd,
    mul_comm (sumFlags localValues) (sumFlags nextValues - 1)]

theorem rcBitCircuit_eq (i : Fin 64) : rcBitCircuit localValues i = rcBit localValues i := by
  simp only [rcBitCircuit, rcBit, mulAdd, add_comm]

theorem evalOutputCircuit_eq (x y : Fin 5) :
    evalOutputCircuit localValues nextValues x y = evalOutput localValues nextValues x y := by
  have hdiff : ∀ last input output : K,
      mulSub last (input - output) (input - output) = (1 - last) * (output - input) :=
    fun last input output => by
      unfold mulSub
      ring
  simp only [evalOutputCircuit, evalOutput, hdiff, notFinalStep]

/-- The circuit evaluates the constraints of the prover. -/
theorem evalExtCircuit_eq :
    evalExtCircuit localValues nextValues = evalPackedGeneric localValues nextValues := by
  have hprod : ∀ a b c : K, [a, b, c].prod = a * b * c := fun a b c => by
    simp only [List.prod_cons, List.prod_nil, mul_one, mul_assoc]
  have hcPrime : evalCPrimeCircuit localValues = evalCPrime localValues := by
    funext x z
    simp only [evalCPrimeCircuit, evalCPrime, xor3GenCircuit_eq]
  have hinput : evalInputCircuit localValues = evalInput localValues := by
    funext x y
    simp only [evalInputCircuit, evalInput, xor3GenCircuit_eq, reduce_bitsLo, reduce_bitsHi]
    rfl
  have hparity : evalParityCircuit localValues = evalParity localValues := by
    funext x z
    simp only [evalParityCircuit, evalParity, hprod]
  have hchi : evalChiCircuit localValues = evalChi localValues := by
    funext x y
    simp only [evalChiCircuit, evalChi, xorGenCircuit_eq, andnGenCircuit_eq, reduce_bitsLo,
      reduce_bitsHi]
    rfl
  have hiota : evalIotaCircuit localValues = evalIota localValues := by
    simp only [evalIotaCircuit, evalIota, xorGenCircuit_eq, rcBitCircuit_eq, reduce_bitsLo,
      reduce_bitsHi]
    rfl
  have houtput : evalOutputCircuit localValues nextValues = evalOutput localValues nextValues := by
    funext x y
    exact evalOutputCircuit_eq localValues nextValues x y
  simp only [evalExtCircuit, evalPackedGeneric, evalRoundFlagsRecursively_eq, hcPrime, hinput,
    hparity, hchi, hiota, houtput, evalTimestampCircuit, evalTimestamp, hprod]

end Circuit

end Doxa.KeccakStark
