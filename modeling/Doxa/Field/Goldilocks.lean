import Doxa.Lib.Numerals
import Mathlib.NumberTheory.LucasPrimality
import Mathlib.Tactic.ReduceModChar
import Mathlib.Tactic.NormNum.Prime

/-!
# The Goldilocks field

The base field `F` of all circuits and of the native code, the integers modulo
`2^64 - 2^32 + 1`. The prime is certified by Lucas' test at the generator `7`.
-/

namespace Doxa

/-- `F::ORDER`. -/
def ORDER : ℕ := 18446744069414584321

abbrev F := ZMod 18446744069414584321

theorem order_sub_one : (18446744069414584321 - 1 : ℕ) =
    2 ^ 32 * (3 * 5 * 17 * 257 * 65537) := by norm_num

theorem prime_factor_cases {q : ℕ} (hq : q.Prime) (hdvd : q ∣ 18446744069414584321 - 1) :
    q = 2 ∨ q = 3 ∨ q = 5 ∨ q = 17 ∨ q = 257 ∨ q = 65537 := by
  have heq : ∀ r : ℕ, r.Prime → q ∣ r → q = r := fun r hr h =>
    (Nat.prime_dvd_prime_iff_eq hq hr).mp h
  rw [order_sub_one] at hdvd
  simp only [hq.dvd_mul] at hdvd
  rcases hdvd with h | ((((h | h) | h) | h) | h)
  · exact .inl (heq 2 (by norm_num) (hq.dvd_of_dvd_pow h))
  · exact .inr (.inl (heq 3 (by norm_num) h))
  · exact .inr (.inr (.inl (heq 5 (by norm_num) h)))
  · exact .inr (.inr (.inr (.inl (heq 17 (by norm_num) h))))
  · exact .inr (.inr (.inr (.inr (.inl (heq 257 (by norm_num) h)))))
  · exact .inr (.inr (.inr (.inr (.inr (heq 65537 (by norm_num) h)))))

theorem order_prime : Nat.Prime 18446744069414584321 := by
  refine lucas_primality _ (7 : ZMod 18446744069414584321) ?_ ?_
  · reduce_mod_char
  · intro q hq hdvd
    rcases prime_factor_cases hq hdvd with rfl | rfl | rfl | rfl | rfl | rfl
    all_goals
      norm_num
      reduce_mod_char
      decide

instance fact_order_prime : Fact (Nat.Prime 18446744069414584321) := ⟨order_prime⟩

theorem val_lt_word (x : F) : x.val < 2 ^ 64 := lt_trans (ZMod.val_lt x) (by norm_num)

end Doxa
