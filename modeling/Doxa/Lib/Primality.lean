import Mathlib.Data.Nat.Factorization.Basic
import Mathlib.FieldTheory.Finite.Basic

/-!
# Primality from a part of a factorization

Pocklington's criterion: a number is prime when a divisor of its predecessor above its square
root is known with all prime factors, and powers of suitable elements come close to one as the
orders of units of a prime field would have it.
-/

namespace Lib

/-- An order that does not divide the quotient by a prime has all of that prime. -/
theorem prime_pow_dvd_of_not_dvd_div {o m q k : ℕ} (hq : q.Prime) (hk : q ^ k ∣ m) (ho : o ∣ m)
    (hnot : ¬ o ∣ m / q) : q ^ k ∣ o := by
  obtain ⟨t, rfl⟩ := ho
  have hcoprime : Nat.Coprime (q ^ k) t := by
    refine Nat.Coprime.pow_left k ((Nat.Prime.coprime_iff_not_dvd hq).mpr ?_)
    rintro ⟨s, rfl⟩
    refine hnot ⟨s, ?_⟩
    rw [Nat.mul_left_comm, Nat.mul_div_cancel_left _ hq.pos]
  exact hcoprime.dvd_of_dvd_mul_right hk

/-- Pocklington's criterion. -/
theorem pocklington {n F : ℕ} (hn : 1 < n) (hF : F ∣ n - 1) (hsq : n < F * F)
    (h : ∀ q, q.Prime → q ∣ F →
      ∃ a b : ZMod n, a ^ (n - 1) = 1 ∧ (a ^ ((n - 1) / q) - 1) * b = 1) : n.Prime := by
  by_contra hcomposite
  have hp : n.minFac.Prime := Nat.minFac_prime hn.ne'
  have hfact : Fact n.minFac.Prime := ⟨hp⟩
  have hle : n.minFac ^ 2 ≤ n := Nat.minFac_sq_le_self (Nat.zero_lt_of_lt hn) hcomposite
  have hdvd : F ∣ n.minFac - 1 := by
    rw [Nat.dvd_iff_prime_pow_dvd_dvd]
    intro q k hq hqk
    cases k with
    | zero => exact one_dvd _
    | succ k =>
      obtain ⟨a, b, hfull, hpart⟩ := h q hq ((dvd_pow_self q k.succ_ne_zero).trans hqk)
      have hfull' := congrArg (ZMod.castHom (Nat.minFac_dvd n) (ZMod n.minFac)) hfull
      have hpart' := congrArg (ZMod.castHom (Nat.minFac_dvd n) (ZMod n.minFac)) hpart
      rw [map_pow, map_one] at hfull'
      rw [map_mul, map_sub, map_pow, map_one] at hpart'
      have hnot : ¬ orderOf (ZMod.castHom (Nat.minFac_dvd n) (ZMod n.minFac) a) ∣ (n - 1) / q := by
        intro hdvd
        rw [orderOf_dvd_iff_pow_eq_one.mp hdvd, sub_self, zero_mul] at hpart'
        exact zero_ne_one hpart'
      have hne : ZMod.castHom (Nat.minFac_dvd n) (ZMod n.minFac) a ≠ 0 := by
        intro hzero
        rw [hzero, zero_pow (by omega)] at hfull'
        exact zero_ne_one hfull'
      exact (prime_pow_dvd_of_not_dvd_div hq (hqk.trans hF) (orderOf_dvd_of_pow_eq_one hfull')
        hnot).trans (ZMod.orderOf_dvd_card_sub_one hne)
  have hlt : F < n.minFac := by
    have hsub := Nat.le_of_dvd (Nat.sub_pos_of_lt hp.one_lt) hdvd
    have htwo := hp.two_le
    omega
  have hmul : F * F ≤ n.minFac ^ 2 := by
    rw [pow_two]
    exact Nat.mul_le_mul hlt.le hlt.le
  omega

end Lib
