import Doxa.Lib.Positional
import Mathlib.Data.Nat.ModEq
import Mathlib.Data.Nat.Digits.Defs
import Mathlib.Tactic.LinearCombination

/-!
# Arithmetic on several words

Numbers as sequences of `w`-bit words, the least significant word first. An addition passes a
carry from column to column and a subtraction a borrow; the columns of an addition may be larger
than a sum of two words, as those of a multiplication by one word are. A Montgomery product
divides by the word base once for every word of one factor. A bitwise operation acts on the
words one by one.
-/

namespace Lib

variable {w : ℕ}

/-! ## Columns with a carry -/

section Carry

variable (w) (x : ℕ → ℕ)

/-- The carry into column `i`. -/
def carryInto : ℕ → ℕ
  | 0 => 0
  | i + 1 => (x i + carryInto i) / 2 ^ w

/-- The word that column `i` leaves. -/
def columnWord (i : ℕ) : ℕ := (x i + carryInto w x i) % 2 ^ w

theorem columnWord_zero : columnWord w x 0 = x 0 % 2 ^ w := by
  rw [columnWord, carryInto, Nat.add_zero]

theorem littleEndian_columnWord (n : ℕ) :
    littleEndian w (columnWord w x) n + carryInto w x n * 2 ^ (w * n) = littleEndian w x n := by
  induction n with
  | zero => simp [littleEndian, carryInto]
  | succ n ih =>
    have hsplit := Nat.mod_add_div (x n + carryInto w x n) (2 ^ w)
    rw [littleEndian, littleEndian, ← ih, carryInto, columnWord, Nat.mul_succ, pow_add]
    calc littleEndian w (columnWord w x) n + (x n + carryInto w x n) % 2 ^ w * 2 ^ (w * n) +
          (x n + carryInto w x n) / 2 ^ w * (2 ^ (w * n) * 2 ^ w)
        = littleEndian w (columnWord w x) n + ((x n + carryInto w x n) % 2 ^ w +
          2 ^ w * ((x n + carryInto w x n) / 2 ^ w)) * 2 ^ (w * n) := by ring
      _ = littleEndian w (columnWord w x) n + carryInto w x n * 2 ^ (w * n) + x n * 2 ^ (w * n) := by
          rw [hsplit]
          ring

end Carry

/-! ## Columns with a borrow -/

section Borrow

variable (w) (s a : ℕ → ℕ)

/-- The borrow from column `i`. -/
def borrowFrom : ℕ → ℕ
  | 0 => 0
  | i + 1 => if s i < a i + borrowFrom i then 1 else 0

/-- The word that column `i` leaves. -/
def differenceWord (i : ℕ) : ℕ :=
  s i + borrowFrom s a (i + 1) * 2 ^ w - (a i + borrowFrom s a i)

theorem borrowFrom_le (i : ℕ) : borrowFrom s a i ≤ 1 := by
  cases i with
  | zero => exact Nat.zero_le 1
  | succ i =>
    rw [borrowFrom]
    split
    · exact le_refl 1
    · exact Nat.zero_le 1

variable {w s a}

theorem differenceWord_add {i : ℕ} (ha : a i < 2 ^ w) :
    differenceWord w s a i + (a i + borrowFrom s a i) =
      s i + borrowFrom s a (i + 1) * 2 ^ w := by
  refine Nat.sub_add_cancel ?_
  have hle := borrowFrom_le s a i
  rw [borrowFrom]
  split <;> omega

theorem littleEndian_differenceWord {n : ℕ} (ha : ∀ i < n, a i < 2 ^ w) :
    littleEndian w (differenceWord w s a) n + littleEndian w a n =
      littleEndian w s n + borrowFrom s a n * 2 ^ (w * n) := by
  induction n with
  | zero => simp [littleEndian, borrowFrom]
  | succ n ih =>
    have hlow := ih fun i hi => ha i (Nat.lt_succ_of_lt hi)
    have hcolumn := differenceWord_add (s := s) (ha n (Nat.lt_succ_self n))
    rw [littleEndian, littleEndian, littleEndian, Nat.mul_succ, pow_add]
    linear_combination hlow + 2 ^ (w * n) * hcolumn

end Borrow

/-! ## Words and bytes -/

/-- The lowest word apart. -/
theorem littleEndian_succ' (d : ℕ → ℕ) (n : ℕ) :
    littleEndian w d (n + 1) = d 0 + 2 ^ w * littleEndian w (fun i => d (i + 1)) n := by
  induction n with
  | zero => simp [littleEndian]
  | succ n ih =>
    rw [littleEndian, ih, littleEndian, Nat.mul_succ, pow_add]
    ring

/-- The integer of a list of digits. -/
theorem littleEndian_getD (l : List ℕ) :
    littleEndian w (fun i => l.getD i 0) l.length = Nat.ofDigits (2 ^ w) l := by
  induction l with
  | nil => rfl
  | cons d l ih =>
    rw [List.length_cons, littleEndian_succ', Nat.ofDigits_cons, ← ih]
    simp only [List.getD_cons_zero, List.getD_cons_succ]

theorem littleEndian_add (d : ℕ → ℕ) (m n : ℕ) :
    littleEndian w d (m + n) =
      littleEndian w d m + 2 ^ (w * m) * littleEndian w (fun i => d (m + i)) n := by
  induction n with
  | zero => simp [littleEndian]
  | succ n ih =>
    rw [← Nat.add_assoc, littleEndian, ih, littleEndian, Nat.mul_add w m n, pow_add]
    ring

theorem littleEndian_eq_zero {d : ℕ → ℕ} {n : ℕ} :
    littleEndian w d n = 0 ↔ ∀ i < n, d i = 0 := by
  induction n with
  | zero => simp [littleEndian]
  | succ n ih =>
    have hpos : 2 ^ (w * n) ≠ 0 := (Nat.two_pow_pos _).ne'
    rw [littleEndian, Nat.add_eq_zero_iff, ih, Nat.mul_eq_zero, or_iff_left hpos,
      Nat.forall_lt_succ_right]

/-! ## Digits one by one -/

/-- The loop `for i in (0..n).rev()` that multiplies by the base and adds digit `i`. -/
def horner {R : Type*} [CommSemiring R] (base : R) (d : ℕ → R) : ℕ → R → R
  | 0, sum => sum
  | n + 1, sum => horner base d n (base * sum + d n)

theorem horner_natCast {R : Type*} [CommSemiring R] {x : ℕ → R} {d : ℕ → ℕ} {n : ℕ}
    (hx : ∀ i < n, x i = d i) (s : ℕ) :
    horner (2 ^ w) x n s = ((littleEndian w d n + s * 2 ^ (w * n) : ℕ) : R) := by
  induction n generalizing s with
  | zero => simp [horner, littleEndian]
  | succ n ih =>
    have hcast : 2 ^ w * s + x n = ((2 ^ w * s + d n : ℕ) : R) := by
      rw [hx n (Nat.lt_succ_self n)]
      push_cast
      rfl
    rw [horner, hcast, ih fun i hi => hx i (Nat.lt_succ_of_lt hi), littleEndian, Nat.mul_succ,
      pow_add]
    congr 1
    ring

/-- An operation that acts on each digit of its arguments. -/
theorem littleEndian_digitwise {f : ℕ → ℕ → ℕ}
    (hf : ∀ a b k, f a b / 2 ^ k % 2 ^ w = f (a / 2 ^ k % 2 ^ w) (b / 2 ^ k % 2 ^ w))
    (a b n : ℕ) :
    littleEndian w (fun i => f (a / 2 ^ (w * i) % 2 ^ w) (b / 2 ^ (w * i) % 2 ^ w)) n =
      f a b % 2 ^ (w * n) := by
  rw [← littleEndian_digits]
  exact littleEndian_congr fun i _ => (hf a b (w * i)).symm

theorem xor_digit (a b k : ℕ) :
    (a ^^^ b) / 2 ^ k % 2 ^ w = (a / 2 ^ k % 2 ^ w) ^^^ (b / 2 ^ k % 2 ^ w) := by
  rw [Nat.xor_div_two_pow, Nat.xor_mod_two_pow]

theorem and_digit (a b k : ℕ) :
    (a &&& b) / 2 ^ k % 2 ^ w = (a / 2 ^ k % 2 ^ w) &&& (b / 2 ^ k % 2 ^ w) := by
  rw [Nat.and_div_two_pow, Nat.and_mod_two_pow]

/-! ## Montgomery products -/

section Montgomery

variable {s n A F r : ℕ}

/-- A round adds a multiple of one factor and a multiple of the modulus and divides by the base. -/
theorem montgomery_step {i r' m f : ℕ} (h : 2 ^ (w * i) * r = s * A + F * n)
    (hround : 2 ^ w * r' = r + s * m + f * n) :
    2 ^ (w * (i + 1)) * r' = s * (A + m * 2 ^ (w * i)) + (F + f * 2 ^ (w * i)) * n := by
  rw [Nat.mul_succ, pow_add]
  linear_combination h + 2 ^ (w * i) * hround

/-- The quotient is below the sum of the factor and the modulus. -/
theorem montgomery_lt (hn : 0 < n) {k : ℕ} (hA : A ≤ 2 ^ k) (hF : F < 2 ^ k)
    (h : 2 ^ k * r = s * A + F * n) : r < s + n := by
  have hsum : 2 ^ k * r < 2 ^ k * (s + n) := by
    calc 2 ^ k * r = s * A + F * n := h
      _ < s * 2 ^ k + 2 ^ k * n :=
          Nat.add_lt_add_of_le_of_lt (Nat.mul_le_mul_left s hA) (Nat.mul_lt_mul_of_pos_right hF hn)
      _ = 2 ^ k * (s + n) := by ring
  exact Nat.lt_of_mul_lt_mul_left hsum

end Montgomery

end Lib
