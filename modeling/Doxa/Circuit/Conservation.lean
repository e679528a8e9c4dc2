import Doxa.Circuit.Transfer

/-!
# Conservation of value

`assert_balance_invariant` compares two sums of the field. The integers on the wires are
conserved exactly when both sums lose the same amount; with range-checked summands and
carries that amount is the dropped top carry. `mint` turns nothing into `2^256` units.
-/

namespace Doxa.Circuit

theorem maskAmount_value {active : F} (h : IsBool active) (amount : U256Target) :
    (maskAmount active amount).value = if active = 1 then amount.value else 0 := by
  rcases isBool_iff.mp h with rfl | rfl
  · have hmask : maskAmount 0 amount = 0 := funext fun j => ifElse_zero (amount j) 0
    rw [hmask, if_neg zero_ne_one]
    rfl
  · have hmask : maskAmount 1 amount = amount := funext fun j => ifElse_one (amount j) 0
    rw [hmask, if_pos rfl]

namespace TxCircuitTargets

variable (t : TxCircuitTargets)

/-- The integers on the amount wires before and after the transaction agree. -/
def Conserves : Prop :=
  t.accinAmt.value + ∑ i, (if t.inotesIsactive i = 1 then (t.inotes i).amount.value else 0) =
    t.accoutAmt.value + ∑ i, (if t.onotesIsactive i = 1 then (t.onotes i).amount.value else 0)

/-- What the left sum loses. -/
def lhsLost : ℤ := t.lhs.lost t.accinAmt t.inoteAmts

/-- What the right sum loses. -/
def rhsLost : ℤ := t.rhs.lost t.accoutAmt t.onoteAmts

/-- All summands and carries of both sums pass the omitted range checks. -/
def AmountsRangeChecked : Prop :=
  t.lhs.RangeChecked t.accinAmt t.inoteAmts ∧ t.rhs.RangeChecked t.accoutAmt t.onoteAmts

variable {t} {perm : State → State}

theorem conserves_iff_lost (halloc : t.Allocated) (hbalance : t.AssertBalanceInvariant) :
    t.Conserves ↔ t.lhsLost = t.rhsLost := by
  have hin : ∀ i, (if t.inotesIsactive i = 1 then (t.inotes i).amount.value else 0) =
      (t.inoteAmts i).value := fun i => (maskAmount_value (halloc.inotes_isactive i) _).symm
  have hout : ∀ i, (if t.onotesIsactive i = 1 then (t.onotes i).amount.value else 0) =
      (t.onoteAmts i).value := fun i => (maskAmount_value (halloc.onotes_isactive i) _).symm
  have hlhs := hbalance.lhs.total_eq
  have hrhs := hbalance.rhs.total_eq
  rw [hbalance.equal] at hlhs
  unfold Conserves lhsLost rhsLost
  simp only [hin, hout]
  rw [← Nat.cast_inj (R := ℤ), hlhs, hrhs]
  constructor
  · intro h
    linear_combination h
  · intro h
    rw [h]

/-- With range-checked amounts only the dropped carries can differ. -/
theorem lost_iff_carry (hbalance : t.AssertBalanceInvariant) (hrange : t.AmountsRangeChecked) :
    t.lhsLost = t.rhsLost ↔ t.lhs.carryOut 7 = t.rhs.carryOut 7 := by
  unfold lhsLost rhsLost
  rw [hbalance.lhs.lost_eq hrange.1 (le_refl 7), hbalance.rhs.lost_eq hrange.2 (le_refl 7),
    mul_right_inj' (by norm_num), Nat.cast_inj]
  exact ⟨fun h => ZMod.val_injective _ h, fun h => congrArg ZMod.val h⟩

/-- The amounts of a satisfying assignment are conserved exactly when the two sums lose the
same amount, that is, for range-checked amounts, when the two dropped carries agree. -/
theorem value_conservation (h : t.Satisfied perm) :
    (∀ i, (t.inotes i).assetId = t.assetId ∧ (t.onotes i).assetId = t.assetId) ∧
    (t.Conserves ↔ t.lhsLost = t.rhsLost) ∧
    (t.AmountsRangeChecked → (t.Conserves ↔ t.lhs.carryOut 7 = t.rhs.carryOut 7)) := by
  have hlost := conserves_iff_lost h.allocated h.balance
  exact ⟨h.asset_id, hlost, fun hrange => hlost.trans (lost_iff_carry h.balance hrange)⟩

end TxCircuitTargets

theorem payment_conserves :
    (payment.targets id).AmountsRangeChecked ∧ (payment.targets id).Conserves := by
  have hrange : (payment.targets id).AmountsRangeChecked :=
    ⟨{ summands := by decide +kernel, carries := by decide +kernel },
      { summands := by decide +kernel, carries := by decide +kernel }⟩
  have hconserves := TxCircuitTargets.value_conservation (payment_valid.satisfied id)
  exact ⟨hrange, (hconserves.2.2 hrange).mpr rfl⟩

/-! ## Minting -/

/-- Nothing goes in; the account keeps `2^256 - 1` units and a note of one unit goes out. -/
def mint : Transfer where
  notFakeTx := 1
  assetId := 9
  accinAmt := 0
  assetExistsInAccin := 0
  accoutAmt := fun _ => 4294967295
  assetExistsInAccout := 1
  inoteAmt := 0
  inoteActive := 0
  inotePos := 0
  onoteAmt := ![1, 0, 0, 0, 0, 0, 0, 0]
  onoteActive := 1
  donote := 0
  lhs := { result := 0, carryOut := 0, bytes := 0 }
  rhs := { result := 0, carryOut := fun _ => 1, bytes := 0 }

theorem mint_valid : mint.Valid where
  not_fake_tx := isBool_iff.mpr (.inr rfl)
  exists_accin := isBool_iff.mpr (.inl rfl)
  exists_accout := isBool_iff.mpr (.inr rfl)
  inote_active := isBool_iff.mpr (.inl rfl)
  onote_active := isBool_iff.mpr (.inr rfl)
  absent_accin := fun _ => condEq_self _ _
  absent_accout := by decide +kernel
  lhs := { range := by decide +kernel, limb := by decide +kernel }
  rhs := { range := by decide +kernel, limb := by decide +kernel }
  equal := rfl

/-- Only the first slot of a transfer carries value. -/
theorem Transfer.conserves_iff (d : Transfer) (perm : State → State) :
    (d.targets perm).Conserves ↔
      d.accinAmt.value + (if d.inoteActive = 1 then d.inoteAmt.value else 0) =
        d.accoutAmt.value + (if d.onoteActive = 1 then d.onoteAmt.value else 0) := by
  have hslots : ∀ (active : F) (amount : U256Target),
      ∑ i, (if inFirst active 0 i = 1
        then (inFirst (d.note perm amount) (d.note perm 0) i).amount.value else 0) =
        if active = 1 then amount.value else 0 := by
    intro active amount
    rw [Finset.sum_eq_single (0 : Fin NOTE_BATCH)]
    · rfl
    · intro i _ hi
      have hinactive : inFirst active 0 i = 0 := if_neg hi
      rw [hinactive, if_neg zero_ne_one]
    · intro h
      exact absurd (Finset.mem_univ _) h
  unfold TxCircuitTargets.Conserves
  exact iff_of_eq (congrArg₂ (· = ·) (congrArg (d.accinAmt.value + ·) (hslots _ _))
    (congrArg (d.accoutAmt.value + ·) (hslots _ _)))

/-- A real transaction mints: nothing goes in and `2^256` units come out. -/
theorem real_transaction_mints :
    mint.notFakeTx = 1 ∧ ∀ perm : State → State, (mint.targets perm).Satisfied perm ∧
      (mint.targets perm).isPrivTx = 1 ∧ ¬ (mint.targets perm).Conserves := by
  refine ⟨rfl, fun perm => ⟨mint_valid.satisfied perm, rfl, ?_⟩⟩
  rw [mint.conserves_iff]
  decide +kernel

end Doxa.Circuit
