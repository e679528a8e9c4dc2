import Doxa.Circuit.Targets
import Mathlib.Tactic.LinearCombination

/-!
# Sums of 256-bit amounts

`u256_addition_chain` adds limb by limb in the field: the sum of the limbs and the incoming
carry is the result limb plus `2^32` times the outgoing carry. The result limbs are range
checked; the summands and the carries are not, and the last carry is dropped.

An equation of the field says little about the integers on its wires. `wraps` counts how
often the equation of a limb exceeds the field order, and `lost` is what the sum loses to
these wraps and to the dropped carry; the integers always satisfy `total_eq`.
-/

namespace Doxa.Circuit

/-- The integer on the limbs, the least significant one first. -/
def U256Target.value (a : U256Target) : ℕ := ∑ k : Fin 8, (a k).val * 2 ^ (32 * k.val)

/-- The targets `u256_addition_chain` allocates. -/
structure U256AdditionChain where
  result : U256Target
  carryOut : Fin 8 → F
  bytes : Fin 8 → Fin 4 → F

namespace U256AdditionChain

variable (w : U256AdditionChain) {n : ℕ} (input : U256Target) (chain : Fin n → U256Target)

/-- The carry into limb `k`. -/
def carry (k : Fin 8) : F := if k = 0 then 0 else w.carryOut (k - 1)

theorem carry_succ (k : Fin 7) : w.carry k.succ = w.carryOut k.castSucc := by
  have hindex : ∀ k : Fin 7, k.succ - 1 = k.castSucc := by decide
  rw [carry, if_neg (Fin.succ_ne_zero k), hindex]

/-- The range check of a result limb. -/
def DecomposeU32ToBytes (value : F) (bytes : Fin 4 → F) : Prop :=
  (∀ j, (bytes j).val < 256) ∧
    256 * (256 * (256 * bytes 3 + bytes 2) + bytes 1) + bytes 0 = value

instance (value : F) (bytes : Fin 4 → F) : Decidable (DecomposeU32ToBytes value bytes) :=
  inferInstanceAs (Decidable (_ ∧ _))

/-- The range check of four bytes. -/
theorem DecomposeU32ToBytes.val_lt {value : F} {bytes : Fin 4 → F}
    (h : DecomposeU32ToBytes value bytes) : value.val < 2 ^ 32 := by
  obtain ⟨hbytes, hvalue⟩ := h
  have hcast : value = ((256 * (256 * (256 * (bytes 3).val + (bytes 2).val) + (bytes 1).val) +
      (bytes 0).val : ℕ) : F) := by
    rw [← hvalue]
    push_cast
    simp only [ZMod.natCast_zmod_val]
  have h0 := hbytes 0
  have h1 := hbytes 1
  have h2 := hbytes 2
  have h3 := hbytes 3
  rw [hcast, ZMod.val_natCast_of_lt (by omega)]
  omega

def limbSum (k : Fin 8) : F := input k + ∑ i, chain i k

/-- The constraints of `u256_addition_chain`. -/
structure Satisfied : Prop where
  range : ∀ k, DecomposeU32ToBytes (w.result k) (w.bytes k)
  limb : ∀ k, limbSum input chain k + w.carry k = w.result k + w.carryOut k * 2 ^ 32

/-! ## What the sum loses -/

/-- The integer sum of the limbs. -/
def limbTotal (k : Fin 8) : ℕ := (input k).val + ∑ i, (chain i k).val

/-- How often the equation of limb `k` exceeds the field order. -/
def wraps (k : Fin 8) : ℤ :=
  ((limbTotal input chain k + (w.carry k).val : ℤ) -
    ((w.result k).val + (w.carryOut k).val * 2 ^ 32)) / ORDER

/-- The amount the field equations and the dropped carry lose. -/
def lost : ℤ :=
  2 ^ 256 * ((w.carryOut 7).val : ℤ) + ORDER * ∑ k : Fin 8, 2 ^ (32 * k.val) * w.wraps input chain k

variable {w input chain}

theorem Satisfied.limb_eq (h : w.Satisfied input chain) (k : Fin 8) :
    (limbTotal input chain k + (w.carry k).val : ℤ) =
      (w.result k).val + (w.carryOut k).val * 2 ^ 32 + ORDER * w.wraps input chain k := by
  have hcast : (((limbTotal input chain k + (w.carry k).val : ℤ) -
      ((w.result k).val + (w.carryOut k).val * 2 ^ 32) : ℤ) : F) = 0 := by
    have hlimb := h.limb k
    unfold limbSum at hlimb
    unfold limbTotal
    push_cast
    simp only [ZMod.natCast_zmod_val]
    linear_combination hlimb
  have hdvd : (ORDER : ℤ) ∣ (limbTotal input chain k + (w.carry k).val : ℤ) -
      ((w.result k).val + (w.carryOut k).val * 2 ^ 32) :=
    (ZMod.intCast_zmod_eq_zero_iff_dvd _ _).mp hcast
  have hdiv := Int.mul_ediv_cancel' hdvd
  unfold wraps
  linear_combination -hdiv

theorem value_total :
    input.value + ∑ i, (chain i).value = ∑ k : Fin 8, limbTotal input chain k * 2 ^ (32 * k.val) := by
  simp only [U256Target.value, limbTotal, add_mul, Finset.sum_add_distrib, Finset.sum_mul]
  rw [Finset.sum_comm]

variable (w) in
/-- The carries telescope up to the dropped one. -/
theorem sum_carry : ∑ k : Fin 8, (w.carryOut k).val * 2 ^ 32 * 2 ^ (32 * k.val) =
    ∑ k : Fin 8, (w.carry k).val * 2 ^ (32 * k.val) + 2 ^ 256 * (w.carryOut 7).val := by
  rw [Fin.sum_univ_castSucc, Fin.sum_univ_succ (n := 7)]
  have hzero : (w.carry 0).val = 0 := rfl
  have hstep : ∀ k : Fin 7, (w.carryOut k.castSucc).val * 2 ^ 32 * 2 ^ (32 * k.castSucc.val) =
      (w.carry k.succ).val * 2 ^ (32 * k.succ.val) := by
    intro k
    rw [carry_succ, Fin.val_castSucc, Fin.val_succ, Nat.mul_succ, pow_add]
    ring
  rw [Finset.sum_congr rfl fun k _ => hstep k, hzero, zero_mul, zero_add, Fin.val_last]
  change _ + (w.carryOut 7).val * 2 ^ 32 * 2 ^ (32 * 7) = _
  ring

theorem Satisfied.total_eq (h : w.Satisfied input chain) :
    ((input.value + ∑ i, (chain i).value : ℕ) : ℤ) = w.result.value + w.lost input chain := by
  have hcarry : ((∑ k : Fin 8, (w.carryOut k).val * 2 ^ 32 * 2 ^ (32 * k.val) : ℕ) : ℤ) =
      ((∑ k : Fin 8, (w.carry k).val * 2 ^ (32 * k.val) + 2 ^ 256 * (w.carryOut 7).val : ℕ) : ℤ) :=
    congrArg Nat.cast w.sum_carry
  have hsum : ∑ k : Fin 8, (limbTotal input chain k + (w.carry k).val : ℤ) * 2 ^ (32 * k.val) =
      ∑ k : Fin 8, ((w.result k).val + (w.carryOut k).val * 2 ^ 32 +
        ORDER * w.wraps input chain k : ℤ) * 2 ^ (32 * k.val) :=
    Finset.sum_congr rfl fun k _ => by rw [h.limb_eq k]
  simp only [add_mul, Finset.sum_add_distrib] at hsum
  rw [value_total]
  unfold lost U256Target.value
  simp only [Nat.cast_add, Nat.cast_sum, Nat.cast_mul, Nat.cast_pow, Nat.cast_ofNat] at hcarry ⊢
  rw [Finset.mul_sum]
  have hwraps : ∑ k : Fin 8, (ORDER * w.wraps input chain k : ℤ) * 2 ^ (32 * k.val) =
      ∑ k : Fin 8, (ORDER : ℤ) * (2 ^ (32 * k.val) * w.wraps input chain k) :=
    Finset.sum_congr rfl fun k _ => by ring
  rw [hwraps] at hsum
  linear_combination hsum + hcarry

/-! ## Range-checked sums -/

variable (w input chain) in
/-- What the range checks the chain omits would give: 32-bit summands and carries small enough
that the equation of no limb wraps. -/
structure RangeChecked : Prop where
  summands : ∀ k, (input k).val < 2 ^ 32 ∧ ∀ i, (chain i k).val < 2 ^ 32
  carries : ∀ k, (w.carryOut k).val < 2 ^ 32 - 1

theorem RangeChecked.limbTotal_lt (h : w.RangeChecked input chain) (hn : n ≤ 7) (k : Fin 8) :
    limbTotal input chain k < 2 ^ 35 := by
  have hsum : ∑ i, (chain i k).val ≤ n * 2 ^ 32 := by
    calc ∑ i, (chain i k).val ≤ ∑ _i : Fin n, 2 ^ 32 :=
          Finset.sum_le_sum fun i _ => ((h.summands k).2 i).le
      _ = n * 2 ^ 32 := by rw [Finset.sum_const, Finset.card_univ, Fintype.card_fin, smul_eq_mul]
  have hinput := (h.summands k).1
  unfold limbTotal
  omega

theorem RangeChecked.carry_lt (h : w.RangeChecked input chain) (k : Fin 8) :
    (w.carry k).val < 2 ^ 32 - 1 := by
  unfold carry
  split
  · exact (by decide : (0 : F).val < 2 ^ 32 - 1)
  · exact h.carries _

theorem Satisfied.result_lt (h : w.Satisfied input chain) (k : Fin 8) :
    (w.result k).val < 2 ^ 32 := (h.range k).val_lt

/-- Without wraps only the dropped carry is lost. -/
theorem Satisfied.lost_eq (h : w.Satisfied input chain) (hr : w.RangeChecked input chain)
    (hn : n ≤ 7) : w.lost input chain = 2 ^ 256 * ((w.carryOut 7).val : ℤ) := by
  have hwraps : ∀ k, w.wraps input chain k = 0 := by
    intro k
    have heq := h.limb_eq k
    have htotal := hr.limbTotal_lt hn k
    have hcarry := hr.carry_lt k
    have hout := hr.carries k
    have hresult := h.result_lt k
    have horder : (ORDER : ℤ) = 18446744069414584321 := rfl
    rw [horder] at heq
    omega
  simp only [lost, hwraps, mul_zero, Finset.sum_const_zero, add_zero]

/-! ## Exact sums -/

variable (w input chain) in
/-- Every limb equation holds of the integers on the wires, and nothing is carried out of the
top limb. -/
structure Exact : Prop where
  limb : ∀ k, limbTotal input chain k + (w.carry k).val =
    (w.result k).val + (w.carryOut k).val * 2 ^ 32
  top : w.carryOut 7 = 0

/-- A limb equation exceeds the field order only a few times. -/
theorem Satisfied.wraps_bounds (h : w.Satisfied input chain) (hn : n ≤ 7) (k : Fin 8) :
    -2 ^ 32 < w.wraps input chain k ∧ w.wraps input chain k < 2 ^ 32 := by
  have heq := h.limb_eq k
  have hresult := h.result_lt k
  have hcarry := ZMod.val_lt (w.carry k)
  have hout := ZMod.val_lt (w.carryOut k)
  have hinput := ZMod.val_lt (input k)
  have hsum : ∑ i, (chain i k).val ≤ n * 18446744069414584321 := by
    calc ∑ i, (chain i k).val ≤ ∑ _i : Fin n, 18446744069414584321 :=
          Finset.sum_le_sum fun i _ => (ZMod.val_lt (chain i k)).le
      _ = n * 18446744069414584321 := by
          rw [Finset.sum_const, Finset.card_univ, Fintype.card_fin, smul_eq_mul]
  have htotal : limbTotal input chain k < 8 * 18446744069414584321 := by
    unfold limbTotal
    omega
  have horder : (ORDER : ℤ) = 18446744069414584321 := rfl
  rw [horder] at heq
  constructor <;> omega

/-- A sum of small multiples of the powers of `2^32` vanishes only if they all do. -/
theorem eq_zero_of_sum {x : Fin 8 → ℤ} (hx : ∀ k, -2 ^ 32 < x k ∧ x k < 2 ^ 32)
    (hsum : ∑ k : Fin 8, 2 ^ (32 * k.val) * x k = 0) (k : Fin 8) : x k = 0 := by
  rw [Fin.sum_univ_eight] at hsum
  simp only [Fin.isValue, Fin.val_zero, Fin.val_one, Fin.val_two] at hsum
  have h0 := hx 0
  have h1 := hx 1
  have h2 := hx 2
  have h3 := hx 3
  have h4 := hx 4
  have h5 := hx 5
  have h6 := hx 6
  have h7 := hx 7
  fin_cases k <;> simp at hsum ⊢ <;> omega

/-- Nothing is lost exactly when every limb equation holds of the integers. -/
theorem Satisfied.lost_eq_zero_iff (h : w.Satisfied input chain) (hn : n ≤ 7) :
    w.lost input chain = 0 ↔ w.Exact input chain := by
  constructor
  · intro hlost
    have htop : w.carryOut 7 = 0 := by
      have hdvd : (ORDER : ℤ) ∣ 2 ^ 256 * ((w.carryOut 7).val : ℤ) := by
        refine ⟨-∑ k : Fin 8, 2 ^ (32 * k.val) * w.wraps input chain k, ?_⟩
        unfold lost at hlost
        linear_combination hlost
      have hcast : ((2 ^ 256 * ((w.carryOut 7).val : ℤ) : ℤ) : F) = 0 :=
        (ZMod.intCast_zmod_eq_zero_iff_dvd _ _).mpr hdvd
      rw [Int.cast_mul, Int.cast_natCast, ZMod.natCast_zmod_val] at hcast
      exact (mul_eq_zero.mp hcast).resolve_left (by decide +kernel)
    have hwraps : ∀ k, w.wraps input chain k = 0 := by
      refine eq_zero_of_sum (h.wraps_bounds hn) ?_
      have horder : (ORDER : ℤ) ≠ 0 := by decide
      unfold lost at hlost
      rw [htop, ZMod.val_zero, Nat.cast_zero, mul_zero, zero_add] at hlost
      exact (mul_eq_zero.mp hlost).resolve_left horder
    refine ⟨fun k => ?_, htop⟩
    have heq := h.limb_eq k
    rw [hwraps k, mul_zero, add_zero] at heq
    exact_mod_cast heq
  · intro hexact
    have hwraps : ∀ k, w.wraps input chain k = 0 := by
      intro k
      have hlimb := hexact.limb k
      unfold wraps
      rw [show (limbTotal input chain k + (w.carry k).val : ℤ) =
        (w.result k).val + (w.carryOut k).val * 2 ^ 32 by exact_mod_cast hlimb, sub_self,
        Int.zero_ediv]
    simp only [lost, hwraps, hexact.top, ZMod.val_zero, Nat.cast_zero, mul_zero,
      Finset.sum_const_zero, add_zero]

/-- The integers add up exactly when every limb equation holds of them. -/
theorem Satisfied.exact_iff (h : w.Satisfied input chain) (hn : n ≤ 7) :
    w.result.value = input.value + ∑ i, (chain i).value ↔ w.Exact input chain := by
  rw [← h.lost_eq_zero_iff hn, eq_comm, ← Nat.cast_inj (R := ℤ), h.total_eq]
  exact ⟨fun heq => by linear_combination heq, fun hlost => by rw [hlost, add_zero]⟩

end U256AdditionChain

end Doxa.Circuit
