import Doxa.Lib.Numerals
import Mathlib.NumberTheory.LegendreSymbol.Basic
import Mathlib.Tactic.FieldSimp
import Mathlib.Tactic.LinearCombination

/-!
# Square roots where minus one has none

In a prime field of order `p` with `p % 4 = 3` a power gives the one square root of a square that
is a square itself. With it the square roots of a complex number over the field are found from
its norm: of the two candidates for the square of the real part one is that square, and the other
the negative square of the imaginary part. Which of the two it is, is a hint the caller gives.
A root with real part zero is not found.
-/

namespace Lib.SquareRoots

variable {p : ℕ} [Fact p.Prime]

theorem neg_isSquare_iff (hp : p % 4 = 3) {a : ZMod p} (ha : a ≠ 0) : IsSquare (-a) ↔ ¬IsSquare a := by
  have hodd : Odd (p / 2) := Nat.odd_iff.mpr (by omega)
  have hne : (1 : ZMod p) ≠ -1 := by
    have : Fact (2 < p) := ⟨by have := (Fact.out : p.Prime).two_le; omega⟩
    exact (ZMod.neg_one_ne_one).symm
  rw [ZMod.euler_criterion p ha, ZMod.euler_criterion p (neg_ne_zero.mpr ha), hodd.neg_pow]
  rcases ZMod.pow_div_two_eq_neg_one_or_one p ha with h | h
  · rw [h]
    simp [hne.symm]
  · rw [h]
    simp [hne.symm]

/-- A square whose negative is a square. -/
theorem eq_zero_of_isSquare (hp : p % 4 = 3) {a : ZMod p} (h : IsSquare a) (hneg : IsSquare (-a)) :
    a = 0 := by
  by_contra ha
  exact (neg_isSquare_iff hp ha).mp hneg h

/-! ## Roots in the field -/

def root (a : ZMod p) : ZMod p := a ^ ((p + 1) / 4)

/-- The root, if there is one. -/
def sqrt (a : ZMod p) : Option (ZMod p) := if root a * root a = a then some (root a) else none

theorem sqrt_steps {a x : ZMod p} : sqrt a = some x ↔ root a * root a = a ∧ root a = x := by
  rw [sqrt, Option.ite_none_right_eq_some, Option.some.injEq]

theorem root_mul_self (hp : p % 4 = 3) (b : ZMod p) : root (b * b) * root (b * b) = b * b := by
  by_cases hb : b = 0
  · subst hb
    have hexp : (p + 1) / 4 ≠ 0 := by omega
    rw [root, mul_zero, zero_pow hexp, mul_zero]
  · have hexp : 2 * ((p + 1) / 4 + (p + 1) / 4) = (p - 1) + 2 := by omega
    rw [root, ← pow_add, ← pow_two, ← pow_mul, hexp, pow_add, ZMod.pow_card_sub_one_eq_one hb, one_mul]

theorem isSquare_root (b : ZMod p) : IsSquare (root (b * b)) := by
  refine ⟨b ^ ((p + 1) / 4), ?_⟩
  rw [root, mul_pow]

theorem sqrt_eq_some (hp : p % 4 = 3) {a x : ZMod p} : sqrt a = some x ↔ x * x = a ∧ IsSquare x := by
  unfold sqrt
  constructor
  · intro h
    split at h
    · rename_i hroot
      obtain rfl := Option.some.inj h
      have hsquare := isSquare_root (root a)
      rw [hroot] at hsquare
      exact ⟨hroot, hsquare⟩
    · cases h
  · rintro ⟨rfl, hx⟩
    have hroot := root_mul_self hp x
    rw [if_pos hroot, Option.some.injEq]
    rcases mul_self_eq_mul_self_iff.mp hroot with h | h
    · exact h
    · have hneg : IsSquare (-x) := h ▸ isSquare_root x
      rw [h, eq_zero_of_isSquare hp hx hneg, neg_zero]

theorem sqrt_eq_none (hp : p % 4 = 3) {a : ZMod p} : sqrt a = none ↔ ¬IsSquare a := by
  unfold sqrt
  constructor
  · rintro h ⟨b, rfl⟩
    rw [if_pos (root_mul_self hp b)] at h
    cases h
  · intro h
    exact if_neg fun hroot => h ⟨root a, hroot.symm⟩

/-! ## Complex roots -/

/-- The square of the real part, or the negative square of the imaginary part. -/
def candidate (hint : Bool) (a₀ a₁ : ZMod p) : ZMod p :=
  (a₀ + if hint then -root (a₀ * a₀ + a₁ * a₁) else root (a₀ * a₀ + a₁ * a₁)) / 2

/-- The hint that belongs to a number. -/
def hintOf (a₀ a₁ : ZMod p) : Bool :=
  decide (root (candidate false a₀ a₁) * root (candidate false a₀ a₁) ≠ candidate false a₀ a₁)

def complexSqrt (hint : Bool) (a₀ a₁ : ZMod p) : Option (ZMod p × ZMod p) :=
  if root (a₀ * a₀ + a₁ * a₁) * root (a₀ * a₀ + a₁ * a₁) = a₀ * a₀ + a₁ * a₁ then
    (sqrt (candidate hint a₀ a₁)).bind fun x₀ =>
      if x₀ = 0 then none
      else
        let x₁ := a₁ / (2 * x₀)
        if a₀ = x₀ * x₀ - x₁ * x₁ ∧ a₁ = 2 * (x₀ * x₁) then some (x₀, x₁) else none
  else none

theorem complexSqrt_steps {hint : Bool} {a₀ a₁ x₀ x₁ : ZMod p} :
    complexSqrt hint a₀ a₁ = some (x₀, x₁) ↔
      root (a₀ * a₀ + a₁ * a₁) * root (a₀ * a₀ + a₁ * a₁) = a₀ * a₀ + a₁ * a₁ ∧
      sqrt (candidate hint a₀ a₁) = some x₀ ∧ x₀ ≠ 0 ∧ x₁ = a₁ / (2 * x₀) ∧
      a₀ = x₀ * x₀ - x₁ * x₁ ∧ a₁ = 2 * (x₀ * x₁) := by
  simp only [complexSqrt, Option.ite_none_right_eq_some, Option.ite_none_left_eq_some,
    Option.bind_eq_some_iff, Option.some.injEq, Prod.mk.injEq]
  constructor
  · rintro ⟨hnorm, y₀, hy₀, hne, hcheck, rfl, rfl⟩
    exact ⟨hnorm, hy₀, hne, rfl, hcheck⟩
  · rintro ⟨hnorm, hx₀, hne, rfl, hcheck⟩
    exact ⟨hnorm, x₀, hx₀, hne, hcheck, rfl, rfl⟩

section Candidates

variable (hp : p % 4 = 3) {x₀ x₁ : ZMod p}
include hp

theorem two_ne_zero_of_mod : (2 : ZMod p) ≠ 0 := by
  have : Fact (2 < p) := ⟨by have := (Fact.out : p.Prime).two_le; omega⟩
  intro h
  exact ZMod.neg_one_ne_one (by linear_combination -h)

/-- The candidates for a number with the root `x₀ + x₁ i`, whose real part is not zero. -/
theorem candidates (hx : x₀ ≠ 0) :
    candidate (hintOf (x₀ * x₀ - x₁ * x₁) (2 * (x₀ * x₁))) (x₀ * x₀ - x₁ * x₁) (2 * (x₀ * x₁)) =
        x₀ * x₀ ∧
      candidate (!hintOf (x₀ * x₀ - x₁ * x₁) (2 * (x₀ * x₁))) (x₀ * x₀ - x₁ * x₁) (2 * (x₀ * x₁)) =
        -(x₁ * x₁) := by
  have htwo := two_ne_zero_of_mod hp
  have hnorm : (x₀ * x₀ - x₁ * x₁) * (x₀ * x₀ - x₁ * x₁) + 2 * (x₀ * x₁) * (2 * (x₀ * x₁)) =
      (x₀ * x₀ + x₁ * x₁) * (x₀ * x₀ + x₁ * x₁) := by ring
  have hsquare := isSquare_root (x₀ * x₀ + x₁ * x₁)
  have hhint : ∀ a₀ a₁ : ZMod p, hintOf a₀ a₁ = true ↔ ¬IsSquare (candidate false a₀ a₁) := by
    intro a₀ a₁
    rw [← sqrt_eq_none hp, hintOf, sqrt, decide_eq_true_eq]
    split
    · rename_i h
      simp [h]
    · rename_i h
      simp [h]
  rcases mul_self_eq_mul_self_iff.mp (root_mul_self hp (x₀ * x₀ + x₁ * x₁)) with hroot | hroot
  · -- the root is the norm of the complex root
    have hfalse : candidate false (x₀ * x₀ - x₁ * x₁) (2 * (x₀ * x₁)) = x₀ * x₀ := by
      simp only [candidate, hnorm, hroot, Bool.false_eq_true, if_false]
      field_simp
      ring
    have htrue : candidate true (x₀ * x₀ - x₁ * x₁) (2 * (x₀ * x₁)) = -(x₁ * x₁) := by
      simp only [candidate, hnorm, hroot, if_true]
      field_simp
      ring
    have hval : hintOf (x₀ * x₀ - x₁ * x₁) (2 * (x₀ * x₁)) = false := by
      rw [← Bool.not_eq_true, hhint, hfalse, not_not]
      exact ⟨x₀, rfl⟩
    rw [hval]
    exact ⟨hfalse, htrue⟩
  · have hfalse : candidate false (x₀ * x₀ - x₁ * x₁) (2 * (x₀ * x₁)) = -(x₁ * x₁) := by
      simp only [candidate, hnorm, hroot, Bool.false_eq_true, if_false]
      field_simp
      ring
    have htrue : candidate true (x₀ * x₀ - x₁ * x₁) (2 * (x₀ * x₁)) = x₀ * x₀ := by
      simp only [candidate, hnorm, hroot, if_true]
      field_simp
      ring
    -- a square and a negative square: the imaginary part is not zero
    have hx₁ : x₁ * x₁ ≠ 0 := by
      intro hzero
      rw [hroot, hzero, add_zero] at hsquare
      exact hx (mul_self_eq_zero.mp (eq_zero_of_isSquare hp ⟨x₀, rfl⟩ hsquare))
    have hval : hintOf (x₀ * x₀ - x₁ * x₁) (2 * (x₀ * x₁)) = true := by
      rw [hhint, hfalse, neg_isSquare_iff hp hx₁, not_not]
      exact ⟨x₁, rfl⟩
    rw [hval]
    exact ⟨htrue, hfalse⟩

theorem complexSqrt_eq_some {hint : Bool} {a₀ a₁ : ZMod p} : complexSqrt hint a₀ a₁ = some (x₀, x₁) ↔
    x₀ ≠ 0 ∧ IsSquare x₀ ∧ x₀ * x₀ - x₁ * x₁ = a₀ ∧ 2 * (x₀ * x₁) = a₁ ∧ hint = hintOf a₀ a₁ := by
  constructor
  · intro h
    unfold complexSqrt at h
    split at h
    · obtain ⟨y, hy, h⟩ := Option.bind_eq_some_iff.mp h
      obtain ⟨hcandidate, hsquare⟩ := (sqrt_eq_some hp).mp hy
      split at h
      · cases h
      · rename_i hne
        simp only at h
        split at h
        · rename_i hroot
          obtain ⟨rfl, rfl⟩ := Prod.mk.inj (Option.some.inj h)
          refine ⟨hne, hsquare, hroot.1.symm, hroot.2.symm, ?_⟩
          -- with the other hint the square of the real part would be a negative square
          by_contra hhint
          have hother : hint = !hintOf a₀ a₁ := Bool.eq_not.mpr hhint
          have hneg := (@candidates p _ hp y (a₁ / (2 * y)) hne).2
          rw [← hroot.1, ← hroot.2, ← hother, ← hcandidate] at hneg
          refine hne (mul_self_eq_zero.mp (eq_zero_of_isSquare hp ⟨y, rfl⟩ ?_))
          rw [hneg, neg_neg]
          exact ⟨_, rfl⟩
        · cases h
    · cases h
  · rintro ⟨hne, hsquare, rfl, rfl, rfl⟩
    have hnorm : (x₀ * x₀ - x₁ * x₁) * (x₀ * x₀ - x₁ * x₁) + 2 * (x₀ * x₁) * (2 * (x₀ * x₁)) =
        (x₀ * x₀ + x₁ * x₁) * (x₀ * x₀ + x₁ * x₁) := by ring
    have htwo := two_ne_zero_of_mod hp
    have hdiv : 2 * (x₀ * x₁) / (2 * x₀) = x₁ := by
      field_simp
    have hroot : sqrt (x₀ * x₀) = some x₀ := (sqrt_eq_some hp).mpr ⟨rfl, hsquare⟩
    unfold complexSqrt
    rw [hnorm, if_pos (root_mul_self hp _), (candidates hp hne).1, hroot, Option.bind_some, if_neg hne]
    simp only [hdiv, and_self, if_true]

end Candidates

end Lib.SquareRoots
