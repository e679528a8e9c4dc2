import Doxa.Circuit.Keccak
import Doxa.KeccakStark.Constraints
import Doxa.Lib.CyclicFlags

/-!
# One row of the Keccak table

The constraints are polynomial identities; no constraint says that the columns for single bits
hold zero or one. Where they do, a row with the flag of round `r` satisfies the constraints of
its round exactly when it holds some state, the intermediate states of the round and the state
behind it, as numbers below `2 ^ 32` and as bits.
-/

namespace Doxa.KeccakStark

open Lib Lib.Keccak Circuit Constraint

/-! ## What a satisfied row means -/

section Row

variable {K : Type*} [Field K]

/-- A constraint on a row that may be the first or the last one. -/
def Constraint.Holds (isFirst isLast : Prop) : Constraint K → Prop
  | constraint value => value = 0
  | transition value => ¬isLast → value = 0
  | firstRow value => isFirst → value = 0

def flags (l : Row K) : ℕ → K := fun i => l (regStep i)

theorem sumFlags_eq (l : Row K) : sumFlags l = ∑ i ∈ Finset.range NUM_ROUNDS, flags l i := rfl

/-- The constraints of `eval_round_flags`. -/
structure FlagsHold (isFirst isLast : Prop) (l n : Row K) : Prop where
  boolean : ∀ j < NUM_ROUNDS, flags l j * (flags l j - 1) = 0
  first : isFirst → OneHot NUM_ROUNDS (flags l) 0
  move : ¬isLast → ∀ j < NUM_ROUNDS, sumFlags n * (flags n ((j + 1) % NUM_ROUNDS) - flags l j) +
    (sumFlags n - 1) * sumFlags l * (flags l (NUM_ROUNDS - 1) - 1) = 0
  padding : ¬isLast → sumFlags n * (sumFlags l - 1) = 0

/-- The constraints between the columns of one row. -/
structure RoundHolds (l : Row K) : Prop where
  cPrime : ∀ x z, l (regCPrime x z) =
    xor3Gen (l (regC x z)) (l (regC (x + 4) z)) (l (regC (x + 1) (z + 63)))
  inputLo : ∀ x y, computedLo (inputBit l x y) = l (regA x y)
  inputHi : ∀ x y, computedHi (inputBit l x y) = l (regA x y + 1)
  column : ∀ x z, parityDiff l x z * (parityDiff l x z - 2) * (parityDiff l x z - 4) = 0
  chiLo : ∀ x y, computedLo (chiBit l x y) = l (regAPrimePrime x y)
  chiHi : ∀ x y, computedHi (chiBit l x y) = l (regAPrimePrime x y + 1)
  bitsLo : computedLo (fun i => l (regAPrimePrime00Bit i)) = l (regAPrimePrime 0 0)
  bitsHi : computedHi (fun i => l (regAPrimePrime00Bit i)) = l (regAPrimePrime 0 0 + 1)
  iotaLo : computedLo (xoredBit l) = l (regAPrimePrimePrime 0 0)
  iotaHi : computedHi (xoredBit l) = l (regAPrimePrimePrime 0 0 + 1)

/-- The output of a row is the input of the next one. -/
structure OutputHolds (l n : Row K) : Prop where
  outputLo : ∀ x y, notFinalStep l * (l (regAPrimePrimePrime x y) - n (regA x y)) = 0
  outputHi : ∀ x y, notFinalStep l * (l (regAPrimePrimePrime x y + 1) - n (regA x y + 1)) = 0

def TimestampHolds (l n : Row K) : Prop :=
  sumFlags l * notFinalStep l * (n TIMESTAMP - l TIMESTAMP) = 0

omit [Field K] in
theorem forall_mem_forXZ {n : ℕ} {body : Fin 5 → Fin n → List (Constraint K)}
    {P : Constraint K → Prop} :
    (∀ c ∈ forXZ body, P c) ↔ ∀ x i, ∀ c ∈ body x i, P c := by
  simp only [forXZ, List.mem_flatMap, List.mem_finRange, true_and]
  constructor
  · intro h x i c hc
    exact h c ⟨x, i, hc⟩
  · rintro h c ⟨x, i, hc⟩
    exact h x i c hc

variable {isFirst isLast : Prop} {l n : Row K}

theorem forall_mem_evalRoundFlags :
    (∀ c ∈ evalRoundFlags l n, c.Holds isFirst isLast) ↔ FlagsHold isFirst isLast l n := by
  have hfirst : (∀ i ∈ List.range' 1 (NUM_ROUNDS - 1), isFirst → l (regStep i) = 0) ↔
      ∀ i, 0 < i → i < NUM_ROUNDS → isFirst → l (regStep i) = 0 := by
    simp only [List.mem_range'_1, and_imp]
    constructor
    · intro h i hpos hi
      exact h i hpos (by unfold NUM_ROUNDS at *; omega)
    · intro h i hpos hi
      exact h i hpos (by unfold NUM_ROUNDS at *; omega)
  simp only [evalRoundFlags, List.forall_mem_append, List.forall_mem_map, List.forall_mem_singleton,
    Constraint.Holds, List.mem_range, hfirst]
  constructor
  · rintro ⟨⟨⟨⟨hboolean, hzero⟩, hrest⟩, hmove⟩, hpadding⟩
    refine ⟨hboolean, fun h j hj => ?_, fun h j hj => hmove j hj h, hpadding⟩
    split
    · rename_i hj0
      subst hj0
      exact sub_eq_zero.mp (hzero h)
    · rename_i hj0
      exact hrest j (Nat.pos_of_ne_zero hj0) hj h
  · intro h
    refine ⟨⟨⟨⟨h.boolean, fun hf => ?_⟩, fun i hpos hi hf => ?_⟩, fun j hj hl => h.move hl j hj⟩,
      h.padding⟩
    · exact sub_eq_zero.mpr ((h.first hf 0 (by decide)).trans (if_pos rfl))
    · exact (h.first hf i hi).trans (if_neg (Nat.pos_iff_ne_zero.mp hpos))

/-- All constraints on a row and the next one. -/
theorem forall_mem_evalPackedGeneric :
    (∀ c ∈ evalPackedGeneric l n, c.Holds isFirst isLast) ↔
      FlagsHold isFirst isLast l n ∧ TimestampHolds l n ∧ RoundHolds l ∧
        (¬isLast → OutputHolds l n) := by
  simp only [evalPackedGeneric, List.forall_mem_append, forall_mem_evalRoundFlags, forall_mem_forXZ]
  simp only [evalTimestamp, evalCPrime, evalInput, evalParity, evalChi, evalIota, evalOutput,
    List.forall_mem_cons, List.not_mem_nil, false_imp_iff, implies_true, and_true,
    Constraint.Holds, sub_eq_zero (a := l _), sub_eq_zero (a := computedLo _),
    sub_eq_zero (a := computedHi _)]
  constructor
  · rintro ⟨⟨⟨⟨⟨⟨⟨hflags, htime⟩, hcPrime⟩, hinput⟩, hparity⟩, hchi⟩, hiota⟩, houtput⟩
    obtain ⟨hbitsLo, hbitsHi, hiotaLo, hiotaHi⟩ := hiota
    exact ⟨hflags, htime, ⟨hcPrime, fun x y => (hinput x y).1, fun x y => (hinput x y).2, hparity,
      fun x y => (hchi x y).1, fun x y => (hchi x y).2, hbitsLo, hbitsHi, hiotaLo, hiotaHi⟩,
      fun h => ⟨fun x y => (houtput x y).1 h, fun x y => (houtput x y).2 h⟩⟩
  · rintro ⟨hflags, htime, h, houtput⟩
    exact ⟨⟨⟨⟨⟨⟨⟨hflags, htime⟩, h.cPrime⟩, fun x y => ⟨h.inputLo x y, h.inputHi x y⟩⟩, h.column⟩,
      fun x y => ⟨h.chiLo x y, h.chiHi x y⟩⟩, h.bitsLo, h.bitsHi, h.iotaLo, h.iotaHi⟩,
      fun x y => ⟨fun hl => (houtput hl).outputLo x y, fun hl => (houtput hl).outputHi x y⟩⟩

end Row

/-! ## Bits and limbs -/

/-- `F::from_bool`. -/
def fromBool (b : Bool) : F := if b then 1 else 0

theorem isBool_fromBool (b : Bool) : IsBool (fromBool b) := by
  cases b
  · exact isBool_iff.mpr (.inl rfl)
  · exact isBool_iff.mpr (.inr rfl)

theorem fromBool_of_isBool {b : F} (h : IsBool b) : b = fromBool (decide (b = 1)) := by
  rcases isBool_iff.mp h with rfl | rfl
  · simp [fromBool]
  · simp [fromBool]

@[simp] theorem xorGen_fromBool (a b : Bool) :
    xorGen (fromBool a) (fromBool b) = fromBool (a ^^ b) := by
  cases a <;> cases b <;> simp [xorGen, fromBool]
  norm_num

@[simp] theorem xor3Gen_fromBool (a b c : Bool) :
    xor3Gen (fromBool a) (fromBool b) (fromBool c) = fromBool (a ^^ (b ^^ c)) := by
  rw [xor3Gen, xorGen_fromBool, xorGen_fromBool]

@[simp] theorem andnGen_fromBool (a b : Bool) :
    andnGen (fromBool a) (fromBool b) = fromBool (!a && b) := by
  cases a <;> cases b <;> simp [andnGen, fromBool]

/-- The lane with coordinates `x` and `y`. -/
def laneAt (a : Lanes) (x y : Fin 5) : BitVec 64 := a ⟨5 * y.val + x.val, lane_lt x y⟩

/-- Columns `k` and `k + 1` hold the limbs of a lane. -/
def LimbsAre (l : Row F) (k : ℕ) (w : BitVec 64) : Prop :=
  l k = wordTarget (w.setWidth 32) ∧ l (k + 1) = wordTarget ((w >>> 32).setWidth 32)

theorem computedLo_fromBool (w : BitVec 64) :
    computedLo (fun z => fromBool (w.getLsbD z.val)) = wordTarget (w.setWidth 32) := by
  rw [computedLo_eq, ← leSum_wordBits]
  refine Finset.sum_congr rfl fun z _ => ?_
  rw [wordBits, BitVec.getLsbD_setWidth, decide_eq_true z.isLt, Bool.true_and]
  rfl

theorem computedHi_fromBool (w : BitVec 64) :
    computedHi (fun z => fromBool (w.getLsbD z.val)) = wordTarget ((w >>> 32).setWidth 32) := by
  rw [computedHi_eq, ← leSum_wordBits]
  refine Finset.sum_congr rfl fun z _ => ?_
  rw [wordBits, BitVec.getLsbD_setWidth, decide_eq_true z.isLt, Bool.true_and,
    BitVec.getLsbD_ushiftRight]
  rfl

/-- Bits whose limbs are those of a lane are the bits of the lane. -/
theorem bits_of_limbs {bit : Fin 64 → F} {w : BitVec 64} (hbool : ∀ z, IsBool (bit z))
    (hlo : computedLo bit = wordTarget (w.setWidth 32))
    (hhi : computedHi bit = wordTarget ((w >>> 32).setWidth 32)) (z : Fin 64) :
    bit z = fromBool (w.getLsbD z.val) := by
  have hbitsLo : SplitLe (wordTarget (w.setWidth 32)) fun z => bit (lo z) :=
    ⟨fun z => hbool _, (computedLo_eq bit).symm.trans hlo⟩
  have hbitsHi : SplitLe (wordTarget ((w >>> 32).setWidth 32)) fun z => bit (hi z) :=
    ⟨fun z => hbool _, (computedHi_eq bit).symm.trans hhi⟩
  by_cases hz : z.val < 32
  · have hbit := congrFun hbitsLo.eq_wordBits ⟨z.val, hz⟩
    rw [wordBits, BitVec.getLsbD_setWidth, decide_eq_true hz, Bool.true_and] at hbit
    exact hbit
  · have hlt : z.val - 32 < 32 := by omega
    have hbit := congrFun hbitsHi.eq_wordBits ⟨z.val - 32, hlt⟩
    have hindex : 32 + (z.val - 32) = z.val := by omega
    rw [wordBits, BitVec.getLsbD_setWidth, decide_eq_true hlt, Bool.true_and,
      BitVec.getLsbD_ushiftRight] at hbit
    simp only [hi, hindex] at hbit
    exact hbit

/-- The limbs of all lanes, one after the other. -/
theorem forall_limb {l : Row F} {reg : Fin 5 → Fin 5 → ℕ} {a : Lanes} :
    (∀ i : Fin 50, l (reg ⟨i.val / 2 % 5, limb_x i⟩ ⟨i.val / 2 / 5, limb_y i⟩ + i.val % 2) =
      wordTarget (wordsOf a i)) ↔ ∀ x y, LimbsAre l (reg x y) (laneAt a x y) := by
  constructor
  · intro h x y
    have hlane : 5 * y.val + x.val < 25 := lane_lt x y
    have hlow := h ⟨2 * (5 * y.val + x.val), by omega⟩
    have hhigh := h ⟨2 * (5 * y.val + x.val) + 1, by omega⟩
    have hx : (5 * y.val + x.val) % 5 = x.val := by omega
    have hy : (5 * y.val + x.val) / 5 = y.val := by omega
    have hzero : 2 * (5 * y.val + x.val) % 2 = 0 := by omega
    have hone : (2 * (5 * y.val + x.val) + 1) % 2 = 1 := by omega
    have hdiv : 2 * (5 * y.val + x.val) / 2 = 5 * y.val + x.val := by omega
    have hdiv' : (2 * (5 * y.val + x.val) + 1) / 2 = 5 * y.val + x.val := by omega
    simp only [wordsOf, hx, hy, hzero, hdiv, if_true, Nat.add_zero, Fin.eta] at hlow
    simp only [wordsOf, hx, hy, hone, hdiv', if_neg Nat.one_ne_zero, Fin.eta] at hhigh
    exact ⟨hlow, hhigh⟩
  · intro h i
    obtain ⟨hlow, hhigh⟩ := h ⟨i.val / 2 % 5, limb_x i⟩ ⟨i.val / 2 / 5, limb_y i⟩
    have hindex : 5 * (i.val / 2 / 5) + i.val / 2 % 5 = i.val / 2 := by omega
    simp only [laneAt, hindex] at hlow hhigh
    rcases Nat.mod_two_eq_zero_or_one i.val with heven | hodd
    · rw [heven, wordsOf, if_pos heven, Nat.add_zero, hlow]
    · rw [hodd, wordsOf, if_neg (by omega), hhigh]

/-- The input columns hold a state. -/
def InputIs (l : Row F) (a : Lanes) : Prop :=
  ∀ i : Fin 50, l (regInputLimb i) = wordTarget (wordsOf a i)

/-- The output columns hold a state. -/
def OutputIs (l : Row F) (a : Lanes) : Prop :=
  ∀ i : Fin 50, l (regOutputLimb i) = wordTarget (wordsOf a i)

theorem inputIs_iff {l : Row F} {a : Lanes} :
    InputIs l a ↔ ∀ x y, LimbsAre l (regA x y) (laneAt a x y) := forall_limb

theorem outputIs_iff {l : Row F} {a : Lanes} :
    OutputIs l a ↔ ∀ x y, LimbsAre l (regAPrimePrimePrime x y) (laneAt a x y) := forall_limb

theorem laneAt_getLsbD (a : Lanes) (x y : Fin 5) (z : Fin 64) :
    (laneAt a x y).getLsbD z.val = bitsOf a x y z := rfl

/-- The limbs that the bits of a state add up to. -/
theorem limbsAre_of_bits {l : Row F} {k : ℕ} {bit : Fin 64 → F} {b : Bits} {x y : Fin 5}
    (hbit : ∀ z, bit z = fromBool (b x y z)) (hlo : computedLo bit = l k)
    (hhi : computedHi bit = l (k + 1)) : LimbsAre l k (laneAt (toLanes b) x y) := by
  have hbits : bit = fun z => fromBool ((laneAt (toLanes b) x y).getLsbD z.val) := by
    funext z
    rw [hbit, laneAt_getLsbD, bitsOf_toLanes]
  rw [hbits, computedLo_fromBool] at hlo
  rw [hbits, computedHi_fromBool] at hhi
  exact ⟨hlo.symm, hhi.symm⟩

theorem bits_of_limbsAre {l : Row F} {k : ℕ} {bit : Fin 64 → F} {b : Bits} {x y : Fin 5}
    (hbit : ∀ z, bit z = fromBool (b x y z)) (h : LimbsAre l k (laneAt (toLanes b) x y)) :
    computedLo bit = l k ∧ computedHi bit = l (k + 1) := by
  have hbits : bit = fun z => fromBool ((laneAt (toLanes b) x y).getLsbD z.val) := by
    funext z
    rw [hbit, laneAt_getLsbD, bitsOf_toLanes]
  rw [hbits, computedLo_fromBool, computedHi_fromBool]
  exact ⟨h.1.symm, h.2.symm⟩

end Doxa.KeccakStark
