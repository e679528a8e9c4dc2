import Doxa.Lib.Numerals
import Mathlib.Algebra.BigOperators.Group.Finset.Basic
import Mathlib.Algebra.BigOperators.Ring.Finset
import Mathlib.Algebra.Field.Basic
import Mathlib.Data.Nat.ModEq
import Mathlib.Tactic.LinearCombination

/-!
# Flags that count rounds

Every row of a table has `n` flags. In the rows of a round one flag is set, and from row to row
it moves on cyclically; behind the last round the rows may be padding, where no flag is set.
`Steps` are the polynomial equations between two rows that are meant to say so. They do in a
field where the numbers up to `2 * n` are not zero: a table that starts with the first flag
consists of full cycles and padding, but for a cycle that is cut off by the end of the table.
-/

namespace Lib

variable {K : Type*} [Field K]

/-- Flag `k` is set and no other. -/
def OneHot (n : ℕ) (f : ℕ → K) (k : ℕ) : Prop := ∀ j < n, f j = if j = k then 1 else 0

def NoFlag (n : ℕ) (f : ℕ → K) : Prop := ∀ j < n, f j = 0

/-- The equations on a row `f` and the next row `g`. -/
structure FlagStep (n : ℕ) (f g : ℕ → K) : Prop where
  boolean : ∀ j < n, g j * (g j - 1) = 0
  move : ∀ j < n, (∑ i ∈ Finset.range n, g i) * (g ((j + 1) % n) - f j) +
    (∑ i ∈ Finset.range n, g i - 1) * (∑ i ∈ Finset.range n, f i) * (f (n - 1) - 1) = 0
  padding : (∑ i ∈ Finset.range n, g i) * (∑ i ∈ Finset.range n, f i - 1) = 0

variable {n : ℕ} {f g : ℕ → K} {k : ℕ}

theorem OneHot.sum_eq (h : OneHot n f k) (hk : k < n) : ∑ i ∈ Finset.range n, f i = 1 := by
  have hterm : ∀ i ∈ Finset.range n, f i = if i = k then 1 else 0 :=
    fun i hi => h i (Finset.mem_range.mp hi)
  rw [Finset.sum_congr rfl hterm, Finset.sum_ite_eq', if_pos (Finset.mem_range.mpr hk)]

theorem NoFlag.sum_eq (h : NoFlag n f) : ∑ i ∈ Finset.range n, f i = 0 :=
  Finset.sum_eq_zero fun i hi => h i (Finset.mem_range.mp hi)

/-- The sum of the flags counts those that are set. -/
theorem sum_flags (hf : ∀ j < n, f j * (f j - 1) = 0) :
    ∃ c ≤ n, ∑ i ∈ Finset.range n, f i = (c : K) ∧ (c = 0 → NoFlag n f) := by
  induction n with
  | zero => exact ⟨0, le_rfl, by simp, fun _ j hj => absurd hj (Nat.not_lt_zero j)⟩
  | succ n ih =>
    obtain ⟨c, hc, hsum, hzero⟩ := ih fun j hj => hf j (Nat.lt_succ_of_lt hj)
    rw [Finset.sum_range_succ, hsum]
    rcases mul_eq_zero.mp (hf n (Nat.lt_succ_self n)) with hn | hn
    · refine ⟨c, Nat.le_succ_of_le hc, by rw [hn, add_zero], fun h j hj => ?_⟩
      rcases Nat.lt_succ_iff_lt_or_eq.mp hj with hlt | rfl
      · exact hzero h j hlt
      · exact hn
    · refine ⟨c + 1, Nat.succ_le_succ hc, ?_, fun h => absurd h (Nat.succ_ne_zero c)⟩
      rw [sub_eq_zero.mp hn, Nat.cast_succ]

/-- Position `(k + 1) % n` is behind position `k`. -/
theorem exists_before (hn : 0 < n) {k : ℕ} (hk : k < n) : ∃ j < n, (j + 1) % n = k := by
  cases k with
  | zero => exact ⟨n - 1, Nat.sub_lt hn Nat.one_pos, by rw [Nat.sub_add_cancel hn, Nat.mod_self]⟩
  | succ k => exact ⟨k, Nat.lt_of_succ_lt hk, Nat.mod_eq_of_lt hk⟩

theorem succ_mod_inj {i j : ℕ} (hi : i < n) (hj : j < n) (h : (i + 1) % n = (j + 1) % n) : i = j := by
  have hmod : i % n = j % n := Nat.ModEq.add_right_cancel' 1 h
  rwa [Nat.mod_eq_of_lt hi, Nat.mod_eq_of_lt hj] at hmod

namespace FlagStep

variable (h : FlagStep n f g) (hchar : ∀ c : ℕ, 0 < c → c ≤ 2 * n → (c : K) ≠ 0)
include h hchar

theorem noFlag_of_sum (hsum : ∑ i ∈ Finset.range n, g i = 0) : NoFlag n g := by
  obtain ⟨c, hc, hcount, hzero⟩ := sum_flags h.boolean
  apply hzero
  by_contra hpos
  exact hchar c (Nat.pos_of_ne_zero hpos) (by omega) (hcount.symm.trans hsum)

/-- Before the last round, the next flag is set in the next row. -/
theorem oneHot_succ (hf : OneHot n f k) (hk : k + 1 < n) : OneHot n g (k + 1) := by
  obtain ⟨c, hc, hcount, -⟩ := sum_flags h.boolean
  have hlast : f (n - 1) = 0 := by rw [hf (n - 1) (by omega), if_neg (by omega)]
  have hmove : ∀ j < n, (c : K) * (g ((j + 1) % n) - f j) + (1 - c) = 0 := by
    intro j hj
    have := h.move j hj
    rw [hcount, hf.sum_eq (by omega), hlast] at this
    linear_combination this
  have hone : (c : K) = 1 := by
    have hself := hmove k (by omega)
    rw [hf k (by omega), if_pos rfl, Nat.mod_eq_of_lt hk] at hself
    rcases mul_eq_zero.mp (h.boolean (k + 1) hk) with hzero | hset
    · -- with this flag off the sum would be one half
      exfalso
      rw [hzero] at hself
      cases c with
      | zero => simp at hself
      | succ c =>
        refine hchar (2 * c + 1) (by omega) (by omega) ?_
        push_cast at hself ⊢
        linear_combination -hself
    · rw [sub_eq_zero.mp hset] at hself
      linear_combination -hself
  intro j hj
  obtain ⟨i, hi, rfl⟩ := exists_before (Nat.zero_lt_of_lt hj) hj
  have hi' := hmove i hi
  rw [hone, hf i hi] at hi'
  have heq : (i + 1) % n = k + 1 ↔ i = k := by
    constructor
    · intro hmod
      exact succ_mod_inj hi (by omega) (hmod.trans (Nat.mod_eq_of_lt hk).symm)
    · rintro rfl
      exact Nat.mod_eq_of_lt hk
  simp only [heq]
  linear_combination hi'

/-- Behind the last round stands the first one or padding. -/
theorem oneHot_last (hf : OneHot n f k) (hk : k + 1 = n) : OneHot n g 0 ∨ NoFlag n g := by
  have hlast : f (n - 1) = 1 := by rw [hf (n - 1) (by omega), if_pos (by omega)]
  have hmove : ∀ j < n, (∑ i ∈ Finset.range n, g i) * (g ((j + 1) % n) - f j) = 0 := by
    intro j hj
    have := h.move j hj
    rw [hlast] at this
    linear_combination this
  by_cases hsum : ∑ i ∈ Finset.range n, g i = 0
  · exact .inr (h.noFlag_of_sum hchar hsum)
  · left
    intro j hj
    obtain ⟨i, hi, rfl⟩ := exists_before (Nat.zero_lt_of_lt hj) hj
    have hsame := (mul_eq_zero.mp (hmove i hi)).resolve_left hsum
    have heq : (i + 1) % n = 0 ↔ i = k := by
      constructor
      · intro hmod
        apply succ_mod_inj hi (show k < n by omega)
        rw [hmod, hk, Nat.mod_self]
      · rintro rfl
        rw [hk, Nat.mod_self]
    simp only [heq, sub_eq_zero.mp hsame]
    exact hf i hi

/-- Padding is followed by padding. -/
theorem noFlag_succ (hf : NoFlag n f) : NoFlag n g := by
  apply h.noFlag_of_sum hchar
  have := h.padding
  rw [hf.sum_eq] at this
  linear_combination -this

end FlagStep

/-! ## The converse -/

theorem OneHot.boolean (h : OneHot n f k) : ∀ j < n, f j * (f j - 1) = 0 := by
  intro j hj
  rw [h j hj]
  split
  · rw [sub_self, mul_zero]
  · rw [zero_mul]

theorem NoFlag.boolean (h : NoFlag n f) : ∀ j < n, f j * (f j - 1) = 0 := by
  intro j hj
  rw [h j hj, zero_mul]

/-- From a round to the next one, the first round being next to the last. -/
theorem OneHot.flagStep (hf : OneHot n f k) (hk : k < n) (hg : OneHot n g ((k + 1) % n)) :
    FlagStep n f g := by
  have hsum := hg.sum_eq (Nat.mod_lt _ (Nat.zero_lt_of_lt hk))
  refine ⟨hg.boolean, fun j hj => ?_, ?_⟩
  · have heq : (j + 1) % n = (k + 1) % n ↔ j = k := ⟨succ_mod_inj hj hk, fun h => by rw [h]⟩
    rw [hsum, hg _ (Nat.mod_lt _ (Nat.zero_lt_of_lt hk)), hf j hj]
    simp only [heq, sub_self, mul_zero, zero_mul, add_zero]
  · rw [hf.sum_eq hk, sub_self, mul_zero]

/-- From the last round to padding. -/
theorem OneHot.flagStep_noFlag (hf : OneHot n f (n - 1)) (hn : 0 < n) (hg : NoFlag n g) :
    FlagStep n f g := by
  have hlast : f (n - 1) = 1 := (hf (n - 1) (Nat.sub_lt hn Nat.one_pos)).trans (if_pos rfl)
  refine ⟨hg.boolean, fun j _ => ?_, ?_⟩
  · rw [hg.sum_eq, hlast, sub_self, mul_zero, zero_mul, add_zero]
  · rw [hg.sum_eq, zero_mul]

/-- From padding to padding. -/
theorem NoFlag.flagStep (hf : NoFlag n f) (hg : NoFlag n g) : FlagStep n f g := by
  refine ⟨hg.boolean, fun j _ => ?_, ?_⟩
  · rw [hg.sum_eq, hf.sum_eq, zero_mul, mul_zero, zero_mul, add_zero]
  · rw [hg.sum_eq, zero_mul]

/-! ## Tables -/

/-- Rows before `m` run through the rounds, the others are padding. -/
structure Rounds (n len : ℕ) (f : ℕ → ℕ → K) (m : ℕ) : Prop where
  le : m ≤ len
  active : ∀ i < m, OneHot n (f i) (i % n)
  padding : ∀ i < len, m ≤ i → NoFlag n (f i)
  full : m = len ∨ n ∣ m

namespace Rounds

variable {len m : ℕ} {f : ℕ → ℕ → K}

/-- The table grows by a row of a round. -/
theorem grow (h : Rounds n len f len) (hnext : OneHot n (f len) (len % n)) :
    Rounds n (len + 1) f (len + 1) := by
  refine ⟨le_rfl, fun i hi => ?_, fun i hi hle => by omega, .inl rfl⟩
  rcases Nat.lt_succ_iff_lt_or_eq.mp hi with hlt | rfl
  · exact h.active i hlt
  · exact hnext

/-- The table grows by a row of padding. -/
theorem pad (h : Rounds n len f m) (hfull : n ∣ m) (hnext : NoFlag n (f len)) :
    Rounds n (len + 1) f m := by
  refine ⟨Nat.le_succ_of_le h.le, h.active, fun i hi hmi => ?_, .inr hfull⟩
  rcases Nat.lt_succ_iff_lt_or_eq.mp hi with hlt | rfl
  · exact h.padding i hlt hmi
  · exact hnext

/-- The equations between the last two rows decide which of these it is. -/
theorem succ (hchar : ∀ c : ℕ, 0 < c → c ≤ 2 * n → (c : K) ≠ 0) (hn : 0 < n)
    (h : Rounds n (len + 1) f m) (hstep : FlagStep n (f len) (f (len + 1))) :
    Rounds n (len + 2) f (len + 2) ∨ Rounds n (len + 2) f m := by
  have hmod : len % n < n := Nat.mod_lt len hn
  have hsucc : (len + 1) % n = (len % n + 1) % n := (Nat.mod_add_mod len n 1).symm
  by_cases hm : m = len + 1
  · subst hm
    have hactive := h.active len (Nat.lt_succ_self len)
    by_cases hlast : len % n + 1 = n
    · rw [hlast, Nat.mod_self] at hsucc
      rcases hstep.oneHot_last hchar hactive hlast with hone | hno
      · exact .inl (h.grow (hsucc ▸ hone))
      · exact .inr (h.pad (Nat.dvd_of_mod_eq_zero hsucc) hno)
    · have hlt : len % n + 1 < n := by omega
      rw [Nat.mod_eq_of_lt hlt] at hsucc
      exact .inl (h.grow (hsucc ▸ hstep.oneHot_succ hchar hactive hlt))
  · have hle := h.le
    have hno := h.padding len (Nat.lt_succ_self len) (by omega)
    exact .inr (h.pad (h.full.resolve_left hm) (hstep.noFlag_succ hchar hno))

end Rounds

/-- The tables that the equations admit. -/
theorem exists_rounds (hn : 0 < n) (hchar : ∀ c : ℕ, 0 < c → c ≤ 2 * n → (c : K) ≠ 0)
    {len : ℕ} {f : ℕ → ℕ → K} (hfirst : OneHot n (f 0) 0)
    (hstep : ∀ i < len, FlagStep n (f i) (f (i + 1))) :
    ∃ m, 0 < m ∧ Rounds n (len + 1) f m := by
  induction len with
  | zero =>
    refine ⟨1, Nat.one_pos, le_rfl, fun i hi => ?_, fun i hi hle => by omega, .inl rfl⟩
    obtain rfl : i = 0 := by omega
    rwa [Nat.zero_mod]
  | succ len ih =>
    obtain ⟨m, hm, hrounds⟩ := ih fun i hi => hstep i (Nat.lt_succ_of_lt hi)
    rcases hrounds.succ hchar hn (hstep len (Nat.lt_succ_self len)) with hgrown | hpadded
    · exact ⟨len + 2, Nat.succ_pos _, hgrown⟩
    · exact ⟨m, hm, hpadded⟩

end Lib
