import Doxa.KeccakStark.Table
import Doxa.Lib.Writes
import Mathlib.Data.List.ProdSigma

/-!
# Filling in the table

The prover fills a row column group by column group, in the order of the columns, from the
input to the output of its round. It computes on canonical representatives: bits are shifted
out of limbs and combined with the operations of machine words. Each permutation takes 24 rows
and hands the output of a row to the next one; rows of zeros follow up to a power of two.
-/

namespace Doxa.KeccakStark

open Lib Lib.Keccak Circuit

/-! ## Bits of canonical representatives -/

/-- `xor`. -/
def xor (xs : List F) : F := xs.foldl (fun acc x => ((acc.val ^^^ x.val : ℕ) : F)) 0

/-- `andn`. -/
def andn (x y : F) : F := ((~~~BitVec.ofNat 64 x.val &&& BitVec.ofNat 64 y.val).toNat : F)

/-- Bit `z` of lane `(x, y)` of the input, from its limb. -/
def inputLimbBit (row : Row F) (x y : Fin 5) (z : Fin 64) : F :=
  let isHighLimb := z.val / 32
  let bitInLimb := z.val % 32
  let limb := (row (regA x y + isHighLimb)).val % 2 ^ 32
  fromBool ((limb >>> bitInLimb) % 2 != 0)

theorem xor_fromBool (bs : List Bool) : xor (bs.map fromBool) = fromBool (bs.foldl (· ^^ ·) false) := by
  have hstep : ∀ a b : Bool,
      (((fromBool a).val ^^^ (fromBool b).val : ℕ) : F) = fromBool (a ^^ b) := by
    have hval : ∀ a, (fromBool a).val = a.toNat := fun a => by
      cases a
      · exact ZMod.val_zero
      · exact ZMod.val_one _
    intro a b
    rw [hval, hval]
    cases a <;> cases b <;> simp [fromBool]
  have hfold : ∀ a : Bool, (bs.map fromBool).foldl
      (fun acc x => ((acc.val ^^^ x.val : ℕ) : F)) (fromBool a) = fromBool (bs.foldl (· ^^ ·) a) := by
    induction bs with
    | nil => exact fun a => rfl
    | cons b bs ih =>
      intro a
      rw [List.map_cons, List.foldl_cons, List.foldl_cons, hstep]
      exact ih (a ^^ b)
  exact hfold false

theorem andn_fromBool (a b : Bool) : andn (fromBool a) (fromBool b) = fromBool (!a && b) := by
  have hval : ∀ a, (fromBool a).val = a.toNat := fun a => by
    cases a
    · exact ZMod.val_zero
    · exact ZMod.val_one _
  rw [andn, hval, hval]
  cases a <;> cases b <;> simp [fromBool]

theorem wordTarget_val (w : BitVec 32) : (wordTarget w).val = w.toNat := by
  have hw := w.isLt
  exact ZMod.val_natCast_of_lt (show w.toNat < 18446744069414584321 by omega)

theorem inputLimbBit_eq {row : Row F} {a : Lanes} (h : InputIs row a) (x y : Fin 5) (z : Fin 64) :
    inputLimbBit row x y z = fromBool (bitsOf a x y z) := by
  have hbit : ∀ (w : BitVec 32) (i : ℕ),
      (((wordTarget w).val % 2 ^ 32) >>> i % 2 != 0) = w.getLsbD i := by
    intro w i
    rw [wordTarget_val, Nat.mod_eq_of_lt w.isLt, BitVec.getLsbD, Nat.testBit]
    rw [Nat.and_comm, Nat.and_one_is_mod]
  obtain ⟨hlow, hhigh⟩ := inputIs_iff.mp h x y
  rw [inputLimbBit, ← laneAt_getLsbD]
  by_cases hz : z.val < 32
  · have hdiv : z.val / 32 = 0 := by omega
    have hmod : z.val % 32 = z.val := by omega
    simp only [hdiv, hmod, Nat.add_zero, hlow, hbit, BitVec.getLsbD_setWidth, decide_eq_true hz,
      Bool.true_and]
  · have hdiv : z.val / 32 = 1 := by omega
    have hmod : z.val % 32 < 32 := Nat.mod_lt _ (by decide)
    have hindex : 32 + z.val % 32 = z.val := by omega
    simp only [hdiv, hhigh, hbit, BitVec.getLsbD_setWidth, decide_eq_true hmod, Bool.true_and,
      BitVec.getLsbD_ushiftRight, hindex]

/-! ## One row -/

/-- The column groups stand one behind the other. -/
theorem starts : TIMESTAMP < START_A ∧ START_A < START_C ∧ START_C < START_C_PRIME ∧
    START_C_PRIME < START_A_PRIME ∧ START_A_PRIME < START_A_PRIME_PRIME ∧
    START_A_PRIME_PRIME < START_A_PRIME_PRIME_0_0_BITS ∧
    START_A_PRIME_PRIME_0_0_BITS < REG_A_PRIME_PRIME_PRIME_0_0_LO := by decide

theorem regA_mem (x y : Fin 5) : START_A ≤ regA x y ∧ regA x y + 1 < START_C := by
  unfold regA START_C
  omega

theorem regC_mem (x : Fin 5) (z : Fin 64) : START_C ≤ regC x z ∧ regC x z < START_C_PRIME := by
  unfold regC START_C_PRIME
  omega

theorem regCPrime_mem (x : Fin 5) (z : Fin 64) :
    START_C_PRIME ≤ regCPrime x z ∧ regCPrime x z < START_A_PRIME := by
  unfold regCPrime START_A_PRIME
  omega

theorem regAPrime_mem (x y : Fin 5) (z : Fin 64) :
    START_A_PRIME ≤ regAPrime x y z ∧ regAPrime x y z < START_A_PRIME_PRIME := by
  unfold regAPrime START_A_PRIME_PRIME
  omega

theorem regAPrimePrime_mem (x y : Fin 5) : START_A_PRIME_PRIME ≤ regAPrimePrime x y ∧
    regAPrimePrime x y + 1 < START_A_PRIME_PRIME_0_0_BITS := by
  unfold regAPrimePrime START_A_PRIME_PRIME_0_0_BITS
  omega

theorem regAPrimePrime00Bit_mem (z : Fin 64) :
    START_A_PRIME_PRIME_0_0_BITS ≤ regAPrimePrime00Bit z ∧
      regAPrimePrime00Bit z < REG_A_PRIME_PRIME_PRIME_0_0_LO := by
  unfold regAPrimePrime00Bit REG_A_PRIME_PRIME_PRIME_0_0_LO
  omega

/-- `for x in 0..5 { for z in 0..64 { .. } }` and `for x in 0..5 { for y in 0..5 { .. } }`. -/
def cellsXZ : List (Fin 5 × Fin 64) := List.finRange 5 ×ˢ List.finRange 64

def cellsXYZ : List (Fin 5 × Fin 5 × Fin 64) := List.finRange 5 ×ˢ List.finRange 5 ×ˢ List.finRange 64

/-- The limbs of all lanes. -/
def cellsLimbs : List (Fin 5 × Fin 5 × Fin 2) := List.finRange 5 ×ˢ List.finRange 5 ×ˢ List.finRange 2

def fillC : Row F → Row F :=
  writeCells (fun p => regC p.1 p.2)
    (fun row p => xor ((List.finRange 5).map fun i => inputLimbBit row p.1 i p.2)) cellsXZ

def fillCPrime : Row F → Row F :=
  writeCells (fun p => regCPrime p.1 p.2)
    (fun row p => xor [row (regC p.1 p.2), row (regC (p.1 + 4) p.2), row (regC (p.1 + 1) (p.2 + 63))])
    cellsXZ

def fillAPrime : Row F → Row F :=
  writeCells (fun p => regAPrime p.1 p.2.1 p.2.2)
    (fun row p => xor [inputLimbBit row p.1 p.2.1 p.2.2, row (regC p.1 p.2.2),
      row (regCPrime p.1 p.2.2)]) cellsXYZ

/-- `get_bit` of `A''`. -/
def chiBitValue (row : Row F) (x y : Fin 5) (z : Fin 64) : F :=
  xor [row (regB x y z), andn (row (regB (x + 1) y z)) (row (regB (x + 2) y z))]

def fillAPrimePrime : Row F → Row F :=
  writeCells (fun p => regAPrimePrime p.1 p.2.1 + p.2.2.val)
    (fun row p => if p.2.2 = 0 then computedLo (chiBitValue row p.1 p.2.1)
      else computedHi (chiBitValue row p.1 p.2.1)) cellsLimbs

def fillBits (row : Row F) : Row F :=
  let valLo := (row (regAPrimePrime 0 0)).val
  let valHi := (row (regAPrimePrime 0 0 + 1)).val
  let val := valLo ||| (valHi <<< 32) % 2 ^ 64
  writeCells regAPrimePrime00Bit (fun _ i => ((val >>> i.val % 2 : ℕ) : F)) (List.finRange 64) row

def fillOutput (row : Row F) (round : ℕ) : Row F :=
  let rcLo := rcValue round % 2 ^ 32
  let rcHi := rcValue round >>> 32
  let row := Function.update row (regAPrimePrimePrime 0 0)
    (((row (regAPrimePrime 0 0)).val ^^^ rcLo : ℕ) : F)
  Function.update row (regAPrimePrimePrime 0 0 + 1)
    (((row (regAPrimePrime 0 0 + 1)).val ^^^ rcHi : ℕ) : F)

def generateTraceRowForRound (row : Row F) (round : ℕ) : Row F :=
  let row := Function.update row (regStep round) 1
  fillOutput (fillBits (fillAPrimePrime (fillAPrime (fillCPrime (fillC row))))) round

/-! ## Every group leaves the columns before it -/

section Frames

variable {row : Row F} {k : ℕ}

theorem fillC_of_lt (hk : k < START_C) : fillC row k = row k :=
  writeCells_of_forall_ne fun p _ => by
    have := (regC_mem p.1 p.2).1
    omega

theorem fillCPrime_of_lt (hk : k < START_C_PRIME) : fillCPrime row k = row k :=
  writeCells_of_forall_ne fun p _ => by
    have := (regCPrime_mem p.1 p.2).1
    omega

theorem fillAPrime_of_lt (hk : k < START_A_PRIME) : fillAPrime row k = row k :=
  writeCells_of_forall_ne fun p _ => by
    have := (regAPrime_mem p.1 p.2.1 p.2.2).1
    omega

theorem fillAPrimePrime_of_lt (hk : k < START_A_PRIME_PRIME) : fillAPrimePrime row k = row k :=
  writeCells_of_forall_ne fun p _ => by
    have := (regAPrimePrime_mem p.1 p.2.1).1
    omega

theorem fillBits_of_lt (hk : k < START_A_PRIME_PRIME_0_0_BITS) : fillBits row k = row k :=
  writeCells_of_forall_ne fun i _ => by
    have := (regAPrimePrime00Bit_mem i).1
    omega

theorem fillOutput_of_lt {round : ℕ} (hk : k < REG_A_PRIME_PRIME_PRIME_0_0_LO) :
    fillOutput row round k = row k := by
  have hreg : regAPrimePrimePrime 0 0 = REG_A_PRIME_PRIME_PRIME_0_0_LO := if_pos ⟨rfl, rfl⟩
  rw [fillOutput, hreg, Function.update_of_ne (by omega), Function.update_of_ne (by omega)]

end Frames

/-! ## What a group computes -/

section Values

variable {row : Row F}

theorem inputLimbBit_congr {row' : Row F} (h : ∀ k < START_C, row' k = row k) (x y : Fin 5)
    (z : Fin 64) : inputLimbBit row' x y z = inputLimbBit row x y z := by
  have hlt := (regA_mem x y).2
  simp only [inputLimbBit, h (regA x y + z.val / 32) (by omega)]

theorem regC_injective : Function.Injective fun p : Fin 5 × Fin 64 => regC p.1 p.2 := by
  rintro ⟨x, z⟩ ⟨x', z'⟩ h
  simp only [regC] at h
  exact Prod.ext (Fin.ext (by simp only; omega)) (Fin.ext (by simp only; omega))

theorem fillC_regC (x : Fin 5) (z : Fin 64) : fillC row (regC x z) =
    xor ((List.finRange 5).map fun i => inputLimbBit row x i z) := by
  refine writeCells_apply (i := (x, z)) regC_injective (fun row' h p => ?_)
    (List.pair_mem_product.mpr ⟨List.mem_finRange x, List.mem_finRange z⟩)
  have hbit := fun i => inputLimbBit_congr (fun k hk => h k fun q => ?_) p.1 i p.2
  · simp only [hbit]
  · have := (regC_mem q.1 q.2).1
    omega

theorem regCPrime_injective : Function.Injective fun p : Fin 5 × Fin 64 => regCPrime p.1 p.2 := by
  rintro ⟨x, z⟩ ⟨x', z'⟩ h
  simp only [regCPrime] at h
  exact Prod.ext (Fin.ext (by simp only; omega)) (Fin.ext (by simp only; omega))

theorem fillCPrime_regCPrime (x : Fin 5) (z : Fin 64) : fillCPrime row (regCPrime x z) =
    xor [row (regC x z), row (regC (x + 4) z), row (regC (x + 1) (z + 63))] := by
  refine writeCells_apply (i := (x, z)) regCPrime_injective (fun row' h p => ?_)
    (List.pair_mem_product.mpr ⟨List.mem_finRange x, List.mem_finRange z⟩)
  have hread : ∀ x z, row' (regC x z) = row (regC x z) := fun x z => h _ fun q => by
    have := (regC_mem x z).2
    have := (regCPrime_mem q.1 q.2).1
    omega
  simp only [hread]

theorem regAPrime_injective :
    Function.Injective fun p : Fin 5 × Fin 5 × Fin 64 => regAPrime p.1 p.2.1 p.2.2 := by
  rintro ⟨x, y, z⟩ ⟨x', y', z'⟩ h
  simp only [regAPrime] at h
  exact Prod.ext (Fin.ext (by simp only; omega))
    (Prod.ext (Fin.ext (by simp only; omega)) (Fin.ext (by simp only; omega)))

theorem mem_cellsXYZ (x y : Fin 5) (z : Fin 64) : (x, y, z) ∈ cellsXYZ :=
  List.pair_mem_product.mpr ⟨List.mem_finRange x,
    List.pair_mem_product.mpr ⟨List.mem_finRange y, List.mem_finRange z⟩⟩

theorem fillAPrime_regAPrime (x y : Fin 5) (z : Fin 64) : fillAPrime row (regAPrime x y z) =
    xor [inputLimbBit row x y z, row (regC x z), row (regCPrime x z)] := by
  refine writeCells_apply (i := (x, y, z)) regAPrime_injective (fun row' h p => ?_)
    (mem_cellsXYZ x y z)
  have hread : ∀ k < START_A_PRIME, row' k = row k := fun k hk => h k fun q => by
    have := (regAPrime_mem q.1 q.2.1 q.2.2).1
    omega
  have hstarts := starts
  have hC := fun x z => hread (regC x z) ((regC_mem x z).2.trans hstarts.2.2.2.1)
  have hCPrime := fun x z => hread (regCPrime x z) (regCPrime_mem x z).2
  have hbit : ∀ x y z, inputLimbBit row' x y z = inputLimbBit row x y z :=
    inputLimbBit_congr fun k hk => hread k (by omega)
  simp only [hC, hCPrime, hbit]

theorem regAPrimePrime_injective :
    Function.Injective fun p : Fin 5 × Fin 5 × Fin 2 => regAPrimePrime p.1 p.2.1 + p.2.2.val := by
  rintro ⟨x, y, b⟩ ⟨x', y', b'⟩ h
  simp only [regAPrimePrime] at h
  exact Prod.ext (Fin.ext (by simp only; omega))
    (Prod.ext (Fin.ext (by simp only; omega)) (Fin.ext (by simp only; omega)))

theorem mem_cellsLimbs (x y : Fin 5) (b : Fin 2) : (x, y, b) ∈ cellsLimbs :=
  List.pair_mem_product.mpr ⟨List.mem_finRange x,
    List.pair_mem_product.mpr ⟨List.mem_finRange y, List.mem_finRange b⟩⟩

theorem fillAPrimePrime_limbs (x y : Fin 5) :
    fillAPrimePrime row (regAPrimePrime x y) = computedLo (chiBitValue row x y) ∧
      fillAPrimePrime row (regAPrimePrime x y + 1) = computedHi (chiBitValue row x y) := by
  have hread : ∀ row' : Row F, (∀ k, (∀ p : Fin 5 × Fin 5 × Fin 2,
      regAPrimePrime p.1 p.2.1 + p.2.2.val ≠ k) → row' k = row k) →
        chiBitValue row' = chiBitValue row := by
    intro row' h
    have hB : ∀ x y z, row' (regB x y z) = row (regB x y z) := fun x y z => h _ fun q => by
      have := (regAPrime_mem (x + 3 * y) x (z - rhoOffset (x + 3 * y) x)).2
      have := (regAPrimePrime_mem q.1 q.2.1).1
      rw [regB_eq]
      omega
    funext x y z
    simp only [chiBitValue, hB]
  constructor
  · refine (writeCells_apply (i := (x, y, 0)) regAPrimePrime_injective (fun row' h p => ?_)
      (mem_cellsLimbs x y 0)).trans (if_pos rfl)
    rw [hread row' h]
  · refine (writeCells_apply (i := (x, y, 1)) regAPrimePrime_injective (fun row' h p => ?_)
      (mem_cellsLimbs x y 1)).trans (if_neg (show ¬(1 : Fin 2) = 0 from one_ne_zero))
    rw [hread row' h]

/-! With the state in the input columns, the groups are the steps of the round. -/

theorem fillC_parity {a : Lanes} (h : InputIs row a) (x : Fin 5) (z : Fin 64) :
    fillC row (regC x z) = fromBool (parity (bitsOf a) x z) := by
  have hlist : List.finRange 5 = [0, 1, 2, 3, 4] := by decide
  have hxor := xor_fromBool ((List.finRange 5).map fun i => bitsOf a x i z)
  rw [List.map_map, hlist] at hxor
  rw [fillC_regC, hlist]
  simp only [inputLimbBit_eq h]
  refine hxor.trans (congrArg fromBool ?_)
  simp only [List.map_cons, List.map_nil, List.foldl_cons, List.foldl_nil, Bool.false_xor]
  rfl

theorem fillCPrime_parityPrime {b : Bits} (h : ∀ x z, row (regC x z) = fromBool (parity b x z))
    (x : Fin 5) (z : Fin 64) : fillCPrime row (regCPrime x z) = fromBool (parityPrime b x z) := by
  have hxor := xor_fromBool [parity b x z, parity b (x + 4) z, parity b (x + 1) (z + 63)]
  rw [fillCPrime_regCPrime, h, h, h]
  refine hxor.trans (congrArg fromBool ?_)
  simp only [List.foldl_cons, List.foldl_nil, Bool.false_xor, Bool.xor_assoc]
  rfl

theorem fillAPrime_theta {a : Lanes} (hinput : InputIs row a)
    (hC : ∀ x z, row (regC x z) = fromBool (parity (bitsOf a) x z))
    (hCPrime : ∀ x z, row (regCPrime x z) = fromBool (parityPrime (bitsOf a) x z))
    (x y : Fin 5) (z : Fin 64) :
    fillAPrime row (regAPrime x y z) = fromBool (theta (bitsOf a) x y z) := by
  have hxor := xor_fromBool [bitsOf a x y z, parity (bitsOf a) x z, parityPrime (bitsOf a) x z]
  have hbool : ∀ b p q s : Bool, ((b ^^ p) ^^ (p ^^ (q ^^ s))) = (b ^^ q ^^ s) := by decide
  rw [fillAPrime_regAPrime, inputLimbBit_eq hinput, hC, hCPrime]
  refine hxor.trans (congrArg fromBool ?_)
  simp only [List.foldl_cons, List.foldl_nil, Bool.false_xor]
  exact hbool _ _ _ _

theorem fillAPrimePrime_afterChi {b : Bits}
    (h : ∀ x y z, row (regAPrime x y z) = fromBool (theta b x y z)) (x y : Fin 5) :
    LimbsAre (fillAPrimePrime row) (regAPrimePrime x y) (laneAt (toLanes (afterChi b)) x y) := by
  have hchi : ∀ z, chiBitValue row x y z = fromBool (afterChi b x y z) := by
    intro z
    have hB : ∀ x y z, row (regB x y z) = fromBool (pi (rho (theta b)) x y z) := by
      intro x y z
      rw [regB_eq, h]
      rfl
    have hxor := xor_fromBool [pi (rho (theta b)) x y z,
      !pi (rho (theta b)) (x + 1) y z && pi (rho (theta b)) (x + 2) y z]
    rw [chiBitValue, hB, hB, hB, andn_fromBool]
    refine hxor.trans (congrArg fromBool ?_)
    simp only [List.foldl_cons, List.foldl_nil, Bool.false_xor]
    rfl
  obtain ⟨hlow, hhigh⟩ : fillAPrimePrime row (regAPrimePrime x y) = computedLo (chiBitValue row x y) ∧
      fillAPrimePrime row (regAPrimePrime x y + 1) = computedHi (chiBitValue row x y) :=
    fillAPrimePrime_limbs x y
  exact limbsAre_of_bits hchi hlow.symm hhigh.symm

theorem fillBits_bit {w : BitVec 64} (h : LimbsAre row (regAPrimePrime 0 0) w) (z : Fin 64) :
    fillBits row (regAPrimePrime00Bit z) = fromBool (w.getLsbD z.val) := by
  have hval : (row (regAPrimePrime 0 0)).val |||
      ((row (regAPrimePrime 0 0 + 1)).val <<< 32) % 2 ^ 64 = w.toNat := by
    have hlow : (w.setWidth 32).toNat = w.toNat % 2 ^ 32 := BitVec.toNat_setWidth 32 w
    have hhigh : ((w >>> 32).setWidth 32).toNat = w.toNat / 2 ^ 32 := by
      have hw := w.isLt
      rw [BitVec.toNat_setWidth, BitVec.toNat_ushiftRight, Nat.shiftRight_eq_div_pow]
      omega
    have hw := w.isLt
    rw [h.1, h.2, wordTarget_val, wordTarget_val, hlow, hhigh, Nat.or_comm,
      Nat.mod_eq_of_lt (by rw [Nat.shiftLeft_eq]; omega),
      ← Nat.shiftLeft_add_eq_or_of_lt (Nat.mod_lt _ (by decide)), Nat.shiftLeft_eq]
    omega
  have hinj : Function.Injective regAPrimePrime00Bit := by
    intro z z' hz
    simp only [regAPrimePrime00Bit] at hz
    exact Fin.ext (by omega)
  refine (writeCells_apply hinj (fun _ _ _ => rfl) (List.mem_finRange z)).trans ?_
  rw [hval, fromBool, BitVec.getLsbD, Nat.testBit_eq_decide_div_mod_eq, Nat.shiftRight_eq_div_pow]
  rcases Nat.mod_two_eq_zero_or_one (w.toNat / 2 ^ z.val) with h | h
  · simp [h]
  · simp [h]

/-- The last step changes lane `(0, 0)` by the constant of the round. -/
theorem fillOutput_limbs {w : BitVec 64} {r : ℕ} (hr : r < 24)
    (h : LimbsAre row (regAPrimePrime 0 0) w) :
    LimbsAre (fillOutput row r) (regAPrimePrimePrime 0 0) (w ^^^ roundConstant r) := by
  have hrc : rcValue r = (roundConstant r).toNat := by
    rw [rcValue, rc_eq_standard]
    simp only [List.getD_eq_getElem?_getD, List.getElem?_map, List.getElem?_range hr,
      Option.map_some, Option.getD_some]
  have hlow : rcValue r % 2 ^ 32 = ((roundConstant r).setWidth 32).toNat := by
    rw [hrc, BitVec.toNat_setWidth]
  have hhigh : rcValue r >>> 32 = ((roundConstant r >>> 32).setWidth 32).toNat := by
    have hlt := (roundConstant r).isLt
    rw [hrc, BitVec.toNat_setWidth, BitVec.toNat_ushiftRight, Nat.shiftRight_eq_div_pow]
    omega
  have hne : regAPrimePrime 0 0 + 1 ≠ regAPrimePrimePrime 0 0 := by decide
  constructor
  · rw [fillOutput, Function.update_of_ne (Nat.succ_ne_self _).symm, Function.update_self, h.1,
      wordTarget_val, hlow, BitVec.setWidth_xor, wordTarget, BitVec.toNat_xor]
  · rw [fillOutput, Function.update_self, Function.update_of_ne hne, h.2, wordTarget_val, hhigh,
      BitVec.ushiftRight_xor_distrib, BitVec.setWidth_xor, wordTarget, BitVec.toNat_xor]

end Values

/-- A generated row is a row of its round. -/
theorem generateTraceRowForRound_roundRow {row : Row F} {r : ℕ} {a : Lanes} (hr : r < 24)
    (hflags : ∀ j < 24, row (regStep j) = 0) (hinput : InputIs row a) :
    RoundRow (generateTraceRowForRound row r) r a ∧
      generateTraceRowForRound row r TIMESTAMP = row TIMESTAMP := by
  let r₁ := Function.update row (regStep r) 1
  let r₂ := fillC r₁
  let r₃ := fillCPrime r₂
  let r₄ := fillAPrime r₃
  let r₅ := fillAPrimePrime r₄
  let r₆ := fillBits r₅
  have hrow : generateTraceRowForRound row r = fillOutput r₆ r := rfl
  obtain ⟨hTA, hAC, hC, hCP, hAP, hAPP, hbits⟩ := starts
  have h₁ : ∀ k, TIMESTAMP ≤ k → r₁ k = row k := fun k hk =>
    Function.update_of_ne (by unfold regStep; unfold TIMESTAMP NUM_ROUNDS at hk; omega) _ _
  have h₇ : ∀ k < START_A_PRIME_PRIME_0_0_BITS, fillOutput r₆ r k = r₅ k := fun k hk =>
    (fillOutput_of_lt (hk.trans hbits)).trans (fillBits_of_lt hk)
  have h₅ : ∀ k < START_A_PRIME_PRIME, fillOutput r₆ r k = r₄ k := fun k hk =>
    (h₇ k (hk.trans hAPP)).trans (fillAPrimePrime_of_lt hk)
  have h₄ : ∀ k < START_A_PRIME, fillOutput r₆ r k = r₃ k := fun k hk =>
    (h₅ k (hk.trans hAP)).trans (fillAPrime_of_lt hk)
  have h₃ : ∀ k < START_C_PRIME, fillOutput r₆ r k = r₂ k := fun k hk =>
    (h₄ k (hk.trans hCP)).trans (fillCPrime_of_lt hk)
  have h₂ : ∀ k < START_C, fillOutput r₆ r k = r₁ k := fun k hk =>
    (h₃ k (hk.trans hC)).trans (fillC_of_lt hk)
  have hin : ∀ l : Row F, (∀ k < START_C, l k = r₁ k) → InputIs l a := by
    intro l hl
    rw [inputIs_iff]
    intro x y
    obtain ⟨hlow, hhigh⟩ := inputIs_iff.mp hinput x y
    obtain ⟨hge, hlt⟩ := regA_mem x y
    exact ⟨(hl _ (by omega)).trans ((h₁ _ (by omega)).trans hlow),
      (hl _ hlt).trans ((h₁ _ (by omega)).trans hhigh)⟩
  -- the columns in the order of their computation
  have hCcol := fillC_parity (hin r₁ fun _ _ => rfl)
  have hCPcol := fillCPrime_parityPrime hCcol
  have hAPcol : ∀ x y z, fillAPrime r₃ (regAPrime x y z) = fromBool (theta (bitsOf a) x y z) :=
    fillAPrime_theta (hin r₃ fun k hk => (fillCPrime_of_lt (hk.trans hC)).trans (fillC_of_lt hk))
      (fun x z => (fillCPrime_of_lt (regC_mem x z).2).trans (hCcol x z)) hCPcol
  have hAPPcol := fillAPrimePrime_afterChi hAPcol
  have hlimbs : ∀ {l : Row F} {k : ℕ} {w : BitVec 64}, k + 1 < START_A_PRIME_PRIME_0_0_BITS →
      LimbsAre r₅ k w → l = fillOutput r₆ r → LimbsAre l k w := by
    rintro l k w hk ⟨hlow, hhigh⟩ rfl
    exact ⟨(h₇ k (by omega)).trans hlow, (h₇ (k + 1) hk).trans hhigh⟩
  have hbit : ∀ z, r₆ (regAPrimePrime00Bit z) = fromBool (afterChi (bitsOf a) 0 0 z) := by
    intro z
    have := fillBits_bit (hAPPcol 0 0) z
    rwa [laneAt_getLsbD, bitsOf_toLanes] at this
  have hlast : LimbsAre r₆ (regAPrimePrime 0 0) (laneAt (toLanes (afterChi (bitsOf a))) 0 0) := by
    obtain ⟨hlow, hhigh⟩ := hAPPcol 0 0
    have hlt := (regAPrimePrime_mem 0 0).2
    exact ⟨(fillBits_of_lt (by omega)).trans hlow, (fillBits_of_lt hlt).trans hhigh⟩
  rw [hrow]
  refine ⟨⟨fun j hj => ?_, hin _ h₂, fun x z => (h₃ _ (regC_mem x z).2).trans (hCcol x z),
    fun x z => (h₄ _ (regCPrime_mem x z).2).trans (hCPcol x z),
    fun x y z => (h₅ _ (regAPrime_mem x y z).2).trans (hAPcol x y z),
    fun x y => hlimbs (regAPrimePrime_mem x y).2 (hAPPcol x y) rfl,
    fun z => (fillOutput_of_lt (regAPrimePrime00Bit_mem z).2).trans (hbit z), ?_⟩, ?_⟩
  · have hj' : regStep j < TIMESTAMP := hj
    rw [flags, h₂ _ (by omega)]
    by_cases hjr : j = r
    · subst hjr
      rw [if_pos rfl]
      exact Function.update_self _ _ _
    · rw [if_neg hjr]
      exact (Function.update_of_ne hjr _ _).trans (hflags j hj)
  · rw [outputIs_iff]
    intro x y
    by_cases hxy : x = 0 ∧ y = 0
    · obtain ⟨rfl, rfl⟩ := hxy
      rw [laneAt_keccakRound_zero]
      exact fillOutput_limbs hr hlast
    · rw [laneAt_keccakRound hxy, regAPrimePrimePrime, if_neg hxy]
      exact hlimbs (regAPrimePrime_mem x y).2 (hAPPcol x y) rfl
  · rw [h₂ _ (by omega), h₁ _ le_rfl]

end Doxa.KeccakStark
