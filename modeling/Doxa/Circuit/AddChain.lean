import Doxa.Circuit.U32
import Doxa.Lib.Positional

/-!
# What an addition chain admits

`U256LimbSumGenerator` runs limb by limb: the low half of the sum of the limbs and the incoming
carry is the result, the rest is the outgoing carry. Summands with 32-bit limbs meet the
constraints of the chain this way, and the result is their sum modulo `2^256`. So two chains with
the same sum, as both sides of a balance have, end in the same result. The constraints alone
admit every other result as well, since nothing bounds the carries.
-/

namespace Doxa.Circuit

open Lib

/-- Limbs below `2^32` are determined by their number. -/
theorem U256Target.value_injective {a b : U256Target} (ha : ∀ k, (a k).val < 2 ^ 32)
    (hb : ∀ k, (b k).val < 2 ^ 32) (h : a.value = b.value) : a = b := by
  have hdigit : ∀ (c : U256Target) (k : Fin 8),
      (if hk : k.val < 8 then (c ⟨k.val, hk⟩).val else 0) = (c k).val := by
    intro c k
    rw [dif_pos k.isLt]
  have hsum : ∀ c : U256Target,
      littleEndian 32 (fun k => if hk : k < 8 then (c ⟨k, hk⟩).val else 0) 8 = c.value := by
    intro c
    rw [littleEndian_eq_sum, U256Target.value]
    exact Finset.sum_congr rfl fun k _ => by rw [hdigit]
  rw [← hsum a, ← hsum b] at h
  funext k
  refine ZMod.val_injective _ ?_
  have hk := littleEndian_injective (fun i hi => by rw [dif_pos hi]; exact ha _)
    (fun i hi => by rw [dif_pos hi]; exact hb _) h k.val k.isLt
  rwa [hdigit, hdigit] at hk

theorem U256Target.value_lt {a : U256Target} (ha : ∀ k, (a k).val < 2 ^ 32) :
    a.value < 2 ^ 256 := by
  have hsum := littleEndian_eq_sum (w := 32)
    (fun k => if hk : k < 8 then (a ⟨k, hk⟩).val else 0) 8
  have hlt := littleEndian_lt (w := 32) (n := 8)
    (d := fun k => if hk : k < 8 then (a ⟨k, hk⟩).val else 0)
    (fun i hi => by rw [dif_pos hi]; exact ha _)
  rw [hsum] at hlt
  refine lt_of_eq_of_lt ?_ hlt
  rw [U256Target.value]
  exact Finset.sum_congr rfl fun k _ => by rw [dif_pos k.isLt]

namespace U256AdditionChain

variable {n : ℕ} (input : U256Target) (chain : Fin n → U256Target)

/-- The carry that the generators of the first `k` limbs leave. -/
def generatedCarry : ℕ → F
  | 0 => 0
  | k + 1 =>
    if h : k < 8 then
      (((generatedCarry k).val + limbTotal input chain ⟨k, h⟩) / 2 ^ 32 : ℕ)
    else 0

/-- The limbs and carries of `U256LimbSumGenerator`, and the bytes of the range checks. -/
def generate : U256AdditionChain :=
  let result : U256Target := fun k =>
    (((generatedCarry input chain k.val).val + limbTotal input chain k) % 2 ^ 32 : ℕ)
  { result := result
    carryOut := fun k => generatedCarry input chain (k.val + 1)
    bytes := fun k => byteDecomposition (result k) }

variable {input chain}

theorem generate_carry (k : Fin 8) :
    (generate input chain).carry k = generatedCarry input chain k.val := by
  unfold carry
  split
  · rename_i hzero
    rw [hzero]
    rfl
  · rename_i hpos
    have hval : (k - 1).val + 1 = k.val := by
      rw [Fin.val_sub_one_of_ne_zero hpos]
      exact Nat.sub_add_cancel (Nat.one_le_iff_ne_zero.mpr fun h => hpos (Fin.ext h))
    show generatedCarry input chain ((k - 1).val + 1) = _
    rw [hval]

section Words

variable (hinput : ∀ k, (input k).val < 2 ^ 32) (hchain : ∀ i k, (chain i k).val < 2 ^ 32)
include hinput hchain

theorem limbTotal_le (hn : n ≤ 7) (k : Fin 8) : limbTotal input chain k ≤ 8 * (2 ^ 32 - 1) := by
  have hsum : ∑ i, (chain i k).val ≤ n * (2 ^ 32 - 1) := by
    calc ∑ i, (chain i k).val ≤ ∑ _i : Fin n, (2 ^ 32 - 1) :=
          Finset.sum_le_sum fun i _ => Nat.le_sub_one_of_lt (hchain i k)
      _ = n * (2 ^ 32 - 1) := by
          rw [Finset.sum_const, Finset.card_univ, Fintype.card_fin, smul_eq_mul]
  have hfirst := hinput k
  unfold limbTotal
  omega

/-- Eight summands carry at most seven. -/
theorem generatedCarry_val (hn : n ≤ 7) (k : ℕ) (hk : k ≤ 8) :
    (generatedCarry input chain k).val ≤ 7 := by
  induction k with
  | zero =>
    rw [generatedCarry, ZMod.val_zero]
    omega
  | succ k ih =>
    have hprev := ih (Nat.le_of_succ_le hk)
    have htotal := limbTotal_le hinput hchain hn ⟨k, hk⟩
    rw [generatedCarry, dif_pos (show k < 8 from hk), ZMod.val_natCast_of_lt (by omega)]
    omega

theorem generate_satisfied (hn : n ≤ 7) :
    (generate input chain).Satisfied input chain ∧ (generate input chain).RangeChecked input chain := by
  have hcarry : ∀ k : ℕ, k ≤ 8 → (generatedCarry input chain k).val ≤ 7 :=
    generatedCarry_val hinput hchain hn
  refine ⟨⟨fun k => ?_, fun k => ?_⟩, ⟨fun k => ⟨hinput k, fun i => hchain i k⟩, fun k => ?_⟩⟩
  · refine byteDecomposition_satisfied ?_
    show ((_ % 2 ^ 32 : ℕ) : F).val < 2 ^ 32
    rw [ZMod.val_natCast_of_lt (by omega)]
    omega
  · rw [generate_carry]
    have hcast : limbSum input chain k = (limbTotal input chain k : F) := by
      unfold limbSum limbTotal
      push_cast
      simp only [ZMod.natCast_zmod_val]
    have hsplit := congrArg (Nat.cast : ℕ → F) (Nat.mod_add_div
      ((generatedCarry input chain k.val).val + limbTotal input chain k) (2 ^ 32))
    have hout : (generate input chain).carryOut k =
        (((generatedCarry input chain k.val).val + limbTotal input chain k) / 2 ^ 32 : ℕ) := by
      show generatedCarry input chain (k.val + 1) = _
      rw [generatedCarry, dif_pos k.isLt]
    rw [hcast, hout]
    show _ = ((_ % 2 ^ 32 : ℕ) : F) + _
    rw [Nat.cast_add, Nat.cast_add, Nat.cast_mul, ZMod.natCast_zmod_val, Nat.cast_pow,
      Nat.cast_ofNat] at hsplit
    linear_combination -hsplit
  · show (generatedCarry input chain (k.val + 1)).val < 2 ^ 32 - 1
    have hle := hcarry (k.val + 1) k.isLt
    omega

/-- The generated result is the sum modulo `2^256`. -/
theorem generate_result (hn : n ≤ 7) : (generate input chain).result.value =
    (input.value + ∑ i, (chain i).value) % 2 ^ 256 := by
  obtain ⟨hsat, hrange⟩ := generate_satisfied hinput hchain hn
  have htotal := hsat.total_eq
  rw [hsat.lost_eq hrange hn] at htotal
  have hlt := U256Target.value_lt hsat.result_lt
  have hnat : input.value + ∑ i, (chain i).value =
      (generate input chain).result.value + 2 ^ 256 * ((generate input chain).carryOut 7).val := by
    exact_mod_cast htotal
  rw [hnat, Nat.add_mul_mod_self_left, Nat.mod_eq_of_lt hlt]

end Words

/-- Chains with the same sum generate the same result. -/
theorem generate_result_eq {m : ℕ} {input' : U256Target} {chain' : Fin m → U256Target}
    (hinput : ∀ k, (input k).val < 2 ^ 32) (hchain : ∀ i k, (chain i k).val < 2 ^ 32)
    (hinput' : ∀ k, (input' k).val < 2 ^ 32) (hchain' : ∀ i k, (chain' i k).val < 2 ^ 32)
    (hn : n ≤ 7) (hm : m ≤ 7)
    (h : input.value + ∑ i, (chain i).value = input'.value + ∑ i, (chain' i).value) :
    (generate input chain).result = (generate input' chain').result := by
  refine U256Target.value_injective (generate_satisfied hinput hchain hn).1.result_lt
    (generate_satisfied hinput' hchain' hm).1.result_lt ?_
  rw [generate_result hinput hchain hn, generate_result hinput' hchain' hm, h]

/-! ## Any result

The carries are free elements of the field, in which `2^32` has an inverse. -/

section Forged

variable (input chain) (out : U256Target)

/-- The carry that makes the equations of the first `k` limbs hold. -/
def forgedCarry : ℕ → F
  | 0 => 0
  | k + 1 =>
    if h : k < 8 then (limbSum input chain ⟨k, h⟩ + forgedCarry k - out ⟨k, h⟩) / 2 ^ 32 else 0

/-- Targets with the given result. -/
def forge : U256AdditionChain where
  result := out
  carryOut := fun k => forgedCarry input chain out (k.val + 1)
  bytes := fun k => byteDecomposition (out k)

theorem forge_carry (k : Fin 8) :
    (forge input chain out).carry k = forgedCarry input chain out k.val := by
  refine Fin.cases rfl (fun k => ?_) k
  rw [carry_succ]
  rfl

/-- What the chain is for: the constraints admit the sum modulo `2^256` and nothing else. -/
def DeterminesSum : Prop :=
  ∀ out : U256Target, (∃ w : U256AdditionChain, w.Satisfied input chain ∧ w.result = out) ↔
    (∀ k, (out k).val < 2 ^ 32) ∧ out.value = (input.value + ∑ i, (chain i).value) % 2 ^ 256

variable {out}

theorem forge_satisfied (hout : ∀ k, (out k).val < 2 ^ 32) :
    (forge input chain out).Satisfied input chain where
  range k := byteDecomposition_satisfied (hout k)
  limb k := by
    have hpow : (2 : F) ^ 32 ≠ 0 := pow_ne_zero 32 (by decide)
    have hcarry : (forge input chain out).carryOut k =
        (limbSum input chain k + forgedCarry input chain out k - out k) / 2 ^ 32 := dif_pos k.isLt
    rw [forge_carry, hcarry, div_mul_cancel₀ _ hpow]
    change _ = out k + _
    ring

/-- The constraints are satisfiable with every result of range-checked limbs, whatever is added;
so no inputs determine the sum. -/
theorem addition_chain_undetermined :
    (∀ out : U256Target, (∃ w : U256AdditionChain, w.Satisfied input chain ∧ w.result = out) ↔
      ∀ k, (out k).val < 2 ^ 32) ∧ ¬ DeterminesSum input chain := by
  have hiff : ∀ out : U256Target,
      (∃ w : U256AdditionChain, w.Satisfied input chain ∧ w.result = out) ↔
        ∀ k, (out k).val < 2 ^ 32 := by
    intro out
    constructor
    · rintro ⟨w, hw, rfl⟩
      exact hw.result_lt
    · intro hout
      exact ⟨_, forge_satisfied input chain hout, rfl⟩
  refine ⟨hiff, fun hsum => ?_⟩
  have hvalue : ∀ out : U256Target, (∀ k, (out k).val < 2 ^ 32) →
      out.value = (input.value + ∑ i, (chain i).value) % 2 ^ 256 :=
    fun out hout => ((hsum out).mp ((hiff out).mpr hout)).2
  have hzero : ∀ k : Fin 8, ((0 : U256Target) k).val < 2 ^ 32 := by decide
  have hone : ∀ k : Fin 8, ((1 : U256Target) k).val < 2 ^ 32 := by decide
  have heq := U256Target.value_injective hzero hone ((hvalue _ hzero).trans (hvalue _ hone).symm)
  exact zero_ne_one (congrFun heq 0)

end Forged

/-- Zero and zero add up to one. -/
theorem zeros_add_to_one : ∃ w : U256AdditionChain,
    w.Satisfied 0 (fun _ : Fin 1 => 0) ∧ w.result = ![1, 0, 0, 0, 0, 0, 0, 0] ∧
    (U256Target.value 0 + ∑ _i : Fin 1, U256Target.value 0) % 2 ^ 256 = 0 ∧
    ¬ DeterminesSum 0 (fun _ : Fin 1 => 0) := by
  have hone : ∀ k : Fin 8, ((![1, 0, 0, 0, 0, 0, 0, 0] : U256Target) k).val < 2 ^ 32 := by decide
  have hsat := forge_satisfied 0 (fun _ : Fin 1 => 0) hone
  have hsum : (U256Target.value 0 + ∑ _i : Fin 1, U256Target.value 0) % 2 ^ 256 = 0 := by
    simp [U256Target.value]
  refine ⟨_, hsat, rfl, hsum, fun h => ?_⟩
  have hvalue := ((h _).mp ⟨_, hsat, rfl⟩).2
  have hvalue_one : U256Target.value ![1, 0, 0, 0, 0, 0, 0, 0] = 1 := rfl
  exact one_ne_zero (hvalue_one.symm.trans (hvalue.trans hsum))

end U256AdditionChain

end Doxa.Circuit
