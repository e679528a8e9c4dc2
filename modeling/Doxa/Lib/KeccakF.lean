import Doxa.Lib.Keccak
import Mathlib.Data.Nat.Bitwise

/-!
# The permutation Keccak-f[1600]

The 1600 bits of a state are addressed by two coordinates modulo 5 and a position in a lane;
lane `5 * y + x` of the sponge holds the bits `a x y z`, the least significant one at `z = 0`.
A round is the composition of the five steps. The offsets of the rotations and the constants
of the rounds are computed as the standard defines them, by a walk through the lanes and by a
linear feedback shift register.
-/

namespace Lib.Keccak

abbrev Bits := Fin 5 → Fin 5 → Fin 64 → Bool

variable (a : Bits) (x y : Fin 5) (z : Fin 64)

/-! ## The steps -/

/-- The parity of a column. -/
def parity : Bool := a x 0 z ^^ a x 1 z ^^ a x 2 z ^^ a x 3 z ^^ a x 4 z

def theta : Bits := fun x y z => a x y z ^^ parity a (x + 4) z ^^ parity a (x + 1) (z + 63)

/-- The lane reached after `t` moves from `(1, 0)`. -/
def rhoLane : ℕ → Fin 5 × Fin 5
  | 0 => (1, 0)
  | t + 1 => ((rhoLane t).2, 2 * (rhoLane t).1 + 3 * (rhoLane t).2)

/-- The offset of a lane, `(t + 1) * (t + 2) / 2` for the lane reached after `t` moves. -/
def rhoOffset : Fin 64 :=
  ((List.range 24).find? fun t => rhoLane t = (x, y)).elim 0 fun t =>
    Fin.ofNat 64 ((t + 1) * (t + 2) / 2)

def rho : Bits := fun x y z => a x y (z - rhoOffset x y)

def pi : Bits := fun x y z => a (x + 3 * y) x z

def chi : Bits := fun x y z => a x y z ^^ (!a (x + 1) y z && a (x + 2) y z)

/-- The shift register after `t` steps. -/
def lfsr : ℕ → ℕ
  | 0 => 1
  | t + 1 => 2 * lfsr t ^^^ if 128 ≤ lfsr t then 0x171 else 0

/-- The constant of round `r`: bit `2 ^ j - 1` is output bit `j + 7 * r` of the register. -/
def roundConstant (r : ℕ) : BitVec 64 :=
  (List.range 7).foldl (fun c j => c ||| BitVec.ofNat 64 (lfsr (j + 7 * r) % 2 * 2 ^ (2 ^ j - 1))) 0

def iota (c : BitVec 64) : Bits := fun x y z => a x y z ^^ (x == 0 && y == 0 && c.getLsbD z.val)

/-- Round `r`. -/
def applyRound (r : ℕ) : Bits := iota (chi (pi (rho (theta a)))) (roundConstant r)

/-! ## Lanes -/

theorem lane_lt : 5 * y.val + x.val < 25 := by omega

/-- The bits of the lanes. -/
def bitsOf (lanes : Lanes) : Bits := fun x y z => (lanes ⟨5 * y.val + x.val, lane_lt x y⟩).getLsbD z.val

/-- The lanes made of the bits. -/
def toLanes : Lanes := fun i =>
  BitVec.ofNat 64 (Nat.ofBits (a ⟨i.val % 5, Nat.mod_lt _ (by decide)⟩ ⟨i.val / 5, by omega⟩))

@[simp] theorem bitsOf_toLanes : bitsOf (toLanes a) = a := by
  funext x y z
  have hx : (5 * y.val + x.val) % 5 = x.val := by omega
  have hy : (5 * y.val + x.val) / 5 = y.val := by omega
  simp only [bitsOf, toLanes, BitVec.getLsbD_ofNat, decide_eq_true z.isLt, Bool.true_and, hx, hy,
    Fin.eta]
  exact Nat.testBit_ofBits_lt _ _ z.isLt

/-- The permutation. -/
def keccakF (lanes : Lanes) : Lanes := forLoop (fun r s => toLanes (applyRound (bitsOf s) r)) 24 lanes

end Lib.Keccak
