import Doxa.Lib.KeccakF
import Doxa.Lib.Numerals
import Mathlib.Data.Fin.VecNotation

/-!
# The columns of the Keccak table

A row of the table holds the flags of the rounds, the timestamp of the permutation, the state
`A` before the round in limbs of 32 bits, the bits of the parities `C` and `C'` and of the state
`A'` behind the first step, the state `A''` behind the fourth step in limbs, and for lane
`(0, 0)`, which the last step changes, the bits of `A''` and the limbs of `A'''`. There is no
column for `B`, whose bits are those of `A'` in another order. Coordinates are taken modulo 5
and positions in a lane modulo 64.
-/

namespace Doxa.KeccakStark

open Lib.Keccak

/-- The number of rounds of the permutation. -/
def NUM_ROUNDS : ℕ := 24

/-- The number of lanes of a state. -/
def NUM_INPUTS : ℕ := 25

def regStep (i : ℕ) : ℕ := i

/-- The offsets of the rotations. -/
def R : Fin 5 → Fin 5 → Fin 64 := ![
  ![0, 36, 3, 41, 18],
  ![1, 44, 10, 45, 2],
  ![62, 6, 43, 15, 61],
  ![28, 55, 25, 21, 56],
  ![27, 20, 39, 8, 14]]

def TIMESTAMP : ℕ := NUM_ROUNDS

def START_A : ℕ := TIMESTAMP + 1

/-- The low limb; the high one is in the next column. -/
def regA (x y : Fin 5) : ℕ := START_A + (x.val * 5 + y.val) * 2

def START_C : ℕ := START_A + 5 * 5 * 2

def regC (x : Fin 5) (z : Fin 64) : ℕ := START_C + x.val * 64 + z.val

def START_C_PRIME : ℕ := START_C + 5 * 64

def regCPrime (x : Fin 5) (z : Fin 64) : ℕ := START_C_PRIME + x.val * 64 + z.val

def START_A_PRIME : ℕ := START_C_PRIME + 5 * 64

def regAPrime (x y : Fin 5) (z : Fin 64) : ℕ := START_A_PRIME + x.val * 64 * 5 + y.val * 64 + z.val

def regB (x y : Fin 5) (z : Fin 64) : ℕ :=
  let a := x + 3 * y
  let b := x
  let rot := R a b
  regAPrime a b (z - rot)

def START_A_PRIME_PRIME : ℕ := START_A_PRIME + 5 * 5 * 64

def regAPrimePrime (x y : Fin 5) : ℕ := START_A_PRIME_PRIME + x.val * 2 * 5 + y.val * 2

def START_A_PRIME_PRIME_0_0_BITS : ℕ := START_A_PRIME_PRIME + 5 * 5 * 2

def regAPrimePrime00Bit (i : Fin 64) : ℕ := START_A_PRIME_PRIME_0_0_BITS + i.val

def REG_A_PRIME_PRIME_PRIME_0_0_LO : ℕ := START_A_PRIME_PRIME_0_0_BITS + 64

def REG_A_PRIME_PRIME_PRIME_0_0_HI : ℕ := REG_A_PRIME_PRIME_PRIME_0_0_LO + 1

def regAPrimePrimePrime (x y : Fin 5) : ℕ :=
  if x = 0 ∧ y = 0 then REG_A_PRIME_PRIME_PRIME_0_0_LO else regAPrimePrime x y

def NUM_COLUMNS : ℕ := REG_A_PRIME_PRIME_PRIME_0_0_HI + 1

theorem limb_x (i : Fin 50) : i.val / 2 % 5 < 5 := Nat.mod_lt _ (by decide)

theorem limb_y (i : Fin 50) : i.val / 2 / 5 < 5 := by omega

/-- Limb `i` of the input of the permutation. -/
def regInputLimb (i : Fin 50) : ℕ := regA ⟨i.val / 2 % 5, limb_x i⟩ ⟨i.val / 2 / 5, limb_y i⟩ + i.val % 2

/-- Limb `i` of the output of the permutation. -/
def regOutputLimb (i : Fin 50) : ℕ :=
  regAPrimePrimePrime ⟨i.val / 2 % 5, limb_x i⟩ ⟨i.val / 2 / 5, limb_y i⟩ + i.val % 2

/-- A row of the table; columns from `NUM_COLUMNS` on are not used. -/
abbrev Row (K : Type*) := ℕ → K

/-- The offsets are those of the standard. -/
theorem r_eq_rhoOffset (x y : Fin 5) : R x y = rhoOffset x y := by
  revert x y
  decide

/-- `B` is the state behind the second and third step. -/
theorem regB_eq (x y : Fin 5) (z : Fin 64) :
    regB x y z = regAPrime (x + 3 * y) x (z - rhoOffset (x + 3 * y) x) := by
  rw [← r_eq_rhoOffset]
  rfl

end Doxa.KeccakStark
