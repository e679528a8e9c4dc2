import Doxa.Lib.Execution
import Mathlib.Algebra.BigOperators.Fin
import Mathlib.Data.List.GetD
import Mathlib.Algebra.Order.Ring.Nat
import Mathlib.Tactic.Linarith
import Mathlib.Tactic.Ring

/-!
# Records, digits and words

What a byte format is made of. A sequence of records of one width has record `s` at
position `s * w`; a slice is read at an offset; and a sequence of digits is a number in one
of the two byte orders. The loops that assemble a word from smaller ones, by shifting the
word or by shifting the parts, compute these numbers.
-/

namespace Lib

/-! ## Records of one width -/

section Records

variable {α β : Type*} {f : α → List β} {xs : List α} {w : ℕ}

theorem length_flatMap_record (hw : ∀ x ∈ xs, (f x).length = w) :
    (xs.flatMap f).length = xs.length * w := by
  induction xs with
  | nil => simp
  | cons x xs ih =>
    have htail := ih fun y hy => hw y (List.mem_cons_of_mem x hy)
    rw [List.flatMap_cons, List.length_append, htail, hw x List.mem_cons_self, List.length_cons]
    ring

/-- Entry `j` of record `s`. -/
theorem getElem?_flatMap_record (hw : ∀ x ∈ xs, (f x).length = w) {s j : ℕ} (hj : j < w) :
    (xs.flatMap f)[s * w + j]? = xs[s]?.bind fun x => (f x)[j]? := by
  induction xs generalizing s with
  | nil => simp
  | cons x xs ih =>
    have hx : (f x).length = w := hw x List.mem_cons_self
    rw [List.flatMap_cons]
    cases s with
    | zero =>
      rw [Nat.zero_mul, Nat.zero_add, List.getElem?_append_left (by omega)]
      rfl
    | succ s =>
      have hsplit : (s + 1) * w + j = w + (s * w + j) := by ring
      rw [hsplit, List.getElem?_append_right (by omega), hx, Nat.add_sub_cancel_left]
      exact ih fun y hy => hw y (List.mem_cons_of_mem x hy)

end Records

/-! ## Slices -/

section Slices

variable {α : Type*} {xs : List α} {off m n : ℕ}

/-- `xs[off..off + n]`. -/
def slice (xs : List α) (off n : ℕ) : List α := (xs.drop off).take n

theorem slice_length (h : off + n ≤ xs.length) : (slice xs off n).length = n := by
  rw [slice, List.length_take, List.length_drop]
  omega

theorem slice_append (xs : List α) (off m n : ℕ) :
    slice xs off m ++ slice xs (off + m) n = slice xs off (m + n) := by
  unfold slice
  rw [← List.drop_drop, List.take_add]

theorem slice_rest (h : off + n = xs.length) : slice xs off n = xs.drop off := by
  apply List.take_of_length_le
  rw [List.length_drop]
  omega

theorem slice_getD {k : ℕ} (hk : k < n) (d : α) : (slice xs off n).getD k d = xs.getD (off + k) d := by
  rw [slice, List.getD_eq_getElem?_getD, List.getElem?_take_of_lt hk, List.getElem?_drop,
    List.getD_eq_getElem?_getD]

/-- The entries of a slice, one by one. -/
theorem ofFn_getD_eq_slice (h : off + n ≤ xs.length) (d : α) :
    (List.ofFn fun k : Fin n => xs.getD (off + k.val) d) = slice xs off n := by
  apply List.ext_getElem
  · rw [List.length_ofFn, slice_length h]
  · intro k hk hk'
    rw [List.length_ofFn] at hk
    rw [List.getElem_ofFn, ← slice_getD hk, List.getD_eq_getElem _ _ hk']

end Slices

/-! ## Numbers from digits -/

/-- The number with the `w`-bit digits `d 0, …, d (n - 1)`, the first one most significant. -/
def bigEndian (w : ℕ) (d : ℕ → ℕ) : ℕ → ℕ
  | 0 => 0
  | n + 1 => bigEndian w d n * 2 ^ w + d n

/-- The number with the `w`-bit digits `d 0, …, d (n - 1)`, the first one least significant. -/
def littleEndian (w : ℕ) (d : ℕ → ℕ) : ℕ → ℕ
  | 0 => 0
  | n + 1 => littleEndian w d n + d n * 2 ^ (w * n)

variable {w : ℕ} {d d' : ℕ → ℕ}

theorem bigEndian_congr {n : ℕ} (h : ∀ i < n, d i = d' i) : bigEndian w d n = bigEndian w d' n := by
  induction n with
  | zero => rfl
  | succ n ih =>
    rw [bigEndian, bigEndian, ih fun i hi => h i (hi.trans (Nat.lt_succ_self n)),
      h n (Nat.lt_succ_self n)]

theorem littleEndian_congr {n : ℕ} (h : ∀ i < n, d i = d' i) :
    littleEndian w d n = littleEndian w d' n := by
  induction n with
  | zero => rfl
  | succ n ih =>
    rw [littleEndian, littleEndian, ih fun i hi => h i (hi.trans (Nat.lt_succ_self n)),
      h n (Nat.lt_succ_self n)]

theorem bigEndian_lt {n : ℕ} (hd : ∀ i < n, d i < 2 ^ w) : bigEndian w d n < 2 ^ (w * n) := by
  induction n with
  | zero => simp [bigEndian]
  | succ n ih =>
    have hprev := ih fun i hi => hd i (hi.trans (Nat.lt_succ_self n))
    have hlast := hd n (Nat.lt_succ_self n)
    rw [bigEndian, Nat.mul_succ, pow_add]
    nlinarith

theorem littleEndian_lt {n : ℕ} (hd : ∀ i < n, d i < 2 ^ w) :
    littleEndian w d n < 2 ^ (w * n) := by
  induction n with
  | zero => simp [littleEndian]
  | succ n ih =>
    have hprev := ih fun i hi => hd i (hi.trans (Nat.lt_succ_self n))
    have hlast := hd n (Nat.lt_succ_self n)
    rw [littleEndian, Nat.mul_succ, pow_add]
    nlinarith

theorem littleEndian_eq_sum (d : ℕ → ℕ) (n : ℕ) :
    littleEndian w d n = ∑ k : Fin n, d k.val * 2 ^ (w * k.val) := by
  induction n with
  | zero => rfl
  | succ n ih => rw [littleEndian, ih, Fin.sum_univ_castSucc, Fin.val_last]; rfl

/-- The digits of a number. -/
theorem littleEndian_digits (x n : ℕ) :
    littleEndian w (fun k => x / 2 ^ (w * k) % 2 ^ w) n = x % 2 ^ (w * n) := by
  induction n with
  | zero => rw [littleEndian, Nat.mul_zero, pow_zero, Nat.mod_one]
  | succ n ih => rw [littleEndian, ih, Nat.mul_succ, pow_add, Nat.mod_mul, Nat.mul_comm (2 ^ _)]

/-- Small digits can be read off the number. -/
theorem littleEndian_injective {n : ℕ} (hd : ∀ i < n, d i < 2 ^ w) (hd' : ∀ i < n, d' i < 2 ^ w)
    (h : littleEndian w d n = littleEndian w d' n) : ∀ i < n, d i = d' i := by
  induction n with
  | zero => exact fun i hi => absurd hi (Nat.not_lt_zero i)
  | succ n ih =>
    have hlow := littleEndian_lt fun i hi => hd i (hi.trans (Nat.lt_succ_self n))
    have hlow' := littleEndian_lt fun i hi => hd' i (hi.trans (Nat.lt_succ_self n))
    have hpos : 0 < 2 ^ (w * n) := by positivity
    rw [littleEndian, littleEndian] at h
    have hlast : d n = d' n := by
      have hdiv := congrArg (· / 2 ^ (w * n)) h
      simpa only [Nat.add_mul_div_right _ _ hpos, Nat.div_eq_of_lt hlow, Nat.div_eq_of_lt hlow',
        Nat.zero_add] using hdiv
    rw [hlast, Nat.add_right_cancel_iff] at h
    intro i hi
    rcases Nat.lt_succ_iff_lt_or_eq.mp hi with hi | rfl
    · exact ih (fun i hi => hd i (hi.trans (Nat.lt_succ_self n)))
        (fun i hi => hd' i (hi.trans (Nat.lt_succ_self n))) h i hi
    · exact hlast

theorem bigEndian_add (d : ℕ → ℕ) (m n : ℕ) :
    bigEndian w d (m + n) =
      bigEndian w d m * 2 ^ (w * n) + bigEndian w (fun i => d (m + i)) n := by
  induction n with
  | zero => simp [bigEndian]
  | succ n ih =>
    rw [← Nat.add_assoc, bigEndian, ih, bigEndian, Nat.mul_succ, pow_add]
    ring

/-- The digits read in groups of `m`. -/
theorem bigEndian_group (d : ℕ → ℕ) (m n : ℕ) :
    bigEndian w d (n * m) =
      bigEndian (w * m) (fun i => bigEndian w (fun j => d (i * m + j)) m) n := by
  induction n with
  | zero => simp [bigEndian]
  | succ n ih => rw [Nat.succ_mul, bigEndian_add, ih, bigEndian]

/-- The leading digits. -/
theorem bigEndian_div {m n : ℕ} (hd : ∀ i < m + n, d i < 2 ^ w) :
    bigEndian w d (m + n) / 2 ^ (w * n) = bigEndian w d m := by
  have hlow : bigEndian w (fun i => d (m + i)) n < 2 ^ (w * n) :=
    bigEndian_lt fun i hi => hd (m + i) (by omega)
  rw [bigEndian_add, Nat.mul_comm, Nat.mul_add_div (by positivity), Nat.div_eq_of_lt hlow,
    Nat.add_zero]

/-- Digit `i`. -/
theorem bigEndian_digit {n i : ℕ} (hd : ∀ i < n, d i < 2 ^ w) (hi : i < n) :
    bigEndian w d n / 2 ^ (w * (n - 1 - i)) % 2 ^ w = d i := by
  obtain ⟨m, rfl⟩ : ∃ m, n = i + 1 + m := ⟨n - 1 - i, by omega⟩
  rw [show i + 1 + m - 1 - i = m by omega, bigEndian_div hd, bigEndian, Nat.mul_comm,
    Nat.mul_add_mod, Nat.mod_eq_of_lt (hd i (by omega))]

/-! ## Words from parts -/

section Words

variable {N : ℕ} (x : ℕ → BitVec N)

/-- Shifting the word and entering the next part at the low end. -/
theorem toNat_shift_loop {k : ℕ} (hx : ∀ i < k, (x i).toNat < 2 ^ w) (hk : w * k ≤ N) :
    (forLoop (fun i (v : BitVec N) => (v <<< w) ||| x i) k 0).toNat =
      bigEndian w (fun i => (x i).toNat) k := by
  induction k with
  | zero => rfl
  | succ k ih =>
    have hx' : ∀ i < k, (x i).toNat < 2 ^ w := fun i hi => hx i (hi.trans (Nat.lt_succ_self k))
    have hprev := ih hx' ((Nat.mul_le_mul_left w (Nat.le_succ k)).trans hk)
    have hlast := hx k (Nat.lt_succ_self k)
    have hlt : bigEndian w (fun i => (x i).toNat) k * 2 ^ w < 2 ^ N := by
      have hdigits := bigEndian_lt hx'
      calc bigEndian w (fun i => (x i).toNat) k * 2 ^ w < 2 ^ (w * k) * 2 ^ w :=
            Nat.mul_lt_mul_of_pos_right hdigits (by positivity)
        _ = 2 ^ (w * (k + 1)) := by rw [Nat.mul_succ, pow_add]
        _ ≤ 2 ^ N := Nat.pow_le_pow_right (by decide) hk
    rw [forLoop_succ, BitVec.toNat_or, BitVec.toNat_shiftLeft, hprev, Nat.shiftLeft_eq,
      Nat.mod_eq_of_lt hlt, bigEndian, Nat.mul_comm, ← Nat.two_pow_add_eq_or_of_lt hlast]

/-- Entering the parts at their own places. -/
theorem toNat_place_loop {k : ℕ} (hx : ∀ i < k, (x i).toNat < 2 ^ w) (hk : w * k ≤ N) :
    (forLoop (fun i (v : BitVec N) => v ||| (x i <<< (w * i))) k 0).toNat =
      littleEndian w (fun i => (x i).toNat) k := by
  induction k with
  | zero => rfl
  | succ k ih =>
    have hx' : ∀ i < k, (x i).toNat < 2 ^ w := fun i hi => hx i (hi.trans (Nat.lt_succ_self k))
    have hprev := ih hx' ((Nat.mul_le_mul_left w (Nat.le_succ k)).trans hk)
    have hlast := hx k (Nat.lt_succ_self k)
    have hlt : (x k).toNat * 2 ^ (w * k) < 2 ^ N := by
      calc (x k).toNat * 2 ^ (w * k) < 2 ^ w * 2 ^ (w * k) :=
            Nat.mul_lt_mul_of_pos_right hlast (by positivity)
        _ = 2 ^ (w * (k + 1)) := by rw [Nat.mul_succ, pow_add, Nat.mul_comm]
        _ ≤ 2 ^ N := Nat.pow_le_pow_right (by decide) hk
    rw [forLoop_succ, BitVec.toNat_or, BitVec.toNat_shiftLeft, hprev, Nat.shiftLeft_eq,
      Nat.mod_eq_of_lt hlt, littleEndian, Nat.or_comm, Nat.mul_comm (x k).toNat,
      ← Nat.two_pow_add_eq_or_of_lt (littleEndian_lt hx'), Nat.add_comm]

end Words

end Lib
