import Doxa.Circuit.Padding
import Doxa.Contract.Reads

/-!
# Amounts across the bridge

A deposit credits and a withdrawal debits the integers on its amount wires exactly when the
limb equations of the sum hold of these integers and its top carry is zero, and the contract
reads the same integers exactly when no public limb exceeds 32 bits. The circuits check
neither: `inflated` credits `2^32 + 5` units of which the contract reads five, and
`unbacked` withdraws five units from an empty account.
-/

namespace Doxa.Contract

open Lib Circuit Server

variable (perm : State → State)

/-- What is credited is the amount of the note, and the contract reads that amount and the
signed address. -/
structure DepositExact (t : DepositTxTargets) : Prop where
  credited : t.accoutAmt.value = t.accinAmt.value + t.depositNote.amount.value
  amount_limbs : ∀ k, ((t.publicTargets perm).amount k).val < 2 ^ 32
  address_limbs : ∀ k, ((t.publicTargets perm).ethAddress k).val < 2 ^ 32
  decoded : ∀ data s, HasDeposit data s (t.publicTargets perm) →
    (cdGLU256 data (dSlotOff s + D_AMT_OFF)).toNat = t.depositNote.amount.value ∧
      (cdGLAddress data (dSlotOff s + D_ETH_ADDR_OFF)).toNat = limbsValue t.ethAddress

/-- What is debited in each slot is the amount withdrawn, and the contract reads these amounts
and the signed address. -/
structure WithdrawExact (t : WithdrawTxTargets) : Prop where
  debited : ∀ i, (t.accinAmts i).value = (t.accoutAmts i).value + (t.withdrawalAmts i).value
  amount_limbs : ∀ i k, ((t.publicTargets perm).withdrawalAmts i k).val < 2 ^ 32
  address_limbs : ∀ k, ((t.publicTargets perm).wAccAddr k).val < 2 ^ 32
  decoded : ∀ data s, HasWithdraw data s (t.publicTargets perm) →
    (∀ i, ((readWithdrawal data s).amounts i).toNat = (t.withdrawalAmts i).value) ∧
      (readWithdrawal data s).recipient.toNat = limbsValue t.wAccAddr

variable {perm}

theorem sum_single (a : U256Target) : ∑ i, ((![a] : Fin 1 → U256Target) i).value = a.value :=
  Fin.sum_univ_one _

theorem depositExact_iff {t : DepositTxTargets} (h : t.Satisfied perm) :
    DepositExact perm t ↔ t.sum.Exact t.accinAmt ![t.depositNote.amount] ∧
      (∀ k, (t.depositNote.amount k).val < 2 ^ 32) ∧ ∀ k, (t.ethAddress k).val < 2 ^ 32 := by
  have hsum := h.sum.exact_iff (by decide)
  rw [sum_single, h.balance] at hsum
  constructor
  · intro hexact
    exact ⟨hsum.mp hexact.credited, hexact.amount_limbs, hexact.address_limbs⟩
  · rintro ⟨hlimbs, hamount, haddress⟩
    refine ⟨hsum.mpr hlimbs, hamount, haddress, fun data s hdata => ⟨?_, ?_⟩⟩
    · exact hdata.reads.amount.trans ((lowLimbsValue_eq_iff _).mpr hamount)
    · exact hdata.reads.recipient.trans ((lowLimbsValue_eq_iff _).mpr haddress)

theorem withdrawExact_iff {t : WithdrawTxTargets} (h : t.Satisfied perm) :
    WithdrawExact perm t ↔ (∀ i, (t.rhs i).Exact (t.accoutAmts i) ![t.withdrawalAmts i]) ∧
      (∀ i k, (t.withdrawalAmts i k).val < 2 ^ 32) ∧ ∀ k, (t.wAccAddr k).val < 2 ^ 32 := by
  have hsum : ∀ i, (t.accinAmts i).value = (t.accoutAmts i).value + (t.withdrawalAmts i).value ↔
      (t.rhs i).Exact (t.accoutAmts i) ![t.withdrawalAmts i] := by
    intro i
    have hiff := (h.rhs i).exact_iff (by decide)
    rwa [sum_single, ← h.balance i] at hiff
  constructor
  · intro hexact
    exact ⟨fun i => (hsum i).mp (hexact.debited i), hexact.amount_limbs, hexact.address_limbs⟩
  · rintro ⟨hlimbs, hamount, haddress⟩
    refine ⟨fun i => (hsum i).mpr (hlimbs i), hamount, haddress, fun data s hdata => ⟨?_, ?_⟩⟩
    · intro i
      exact (hdata.reads.amounts i).trans ((lowLimbsValue_eq_iff _).mpr (hamount i))
    · exact hdata.reads.recipient.trans ((lowLimbsValue_eq_iff _).mpr haddress)

/-- Both bridge circuits are exact, and read as they are meant, on the assignments whose limb
equations hold of the integers and whose public limbs have 32 bits, and on no others. -/
theorem bridge_amounts_exact (perm : State → State) :
    (∀ t : DepositTxTargets, t.Satisfied perm →
      (DepositExact perm t ↔ t.sum.Exact t.accinAmt ![t.depositNote.amount] ∧
        (∀ k, (t.depositNote.amount k).val < 2 ^ 32) ∧ ∀ k, (t.ethAddress k).val < 2 ^ 32)) ∧
    ∀ t : WithdrawTxTargets, t.Satisfied perm →
      (WithdrawExact perm t ↔ (∀ i, (t.rhs i).Exact (t.accoutAmts i) ![t.withdrawalAmts i]) ∧
        (∀ i k, (t.withdrawalAmts i k).val < 2 ^ 32) ∧ ∀ k, (t.wAccAddr k).val < 2 ^ 32) :=
  ⟨fun _ h => depositExact_iff h, fun _ h => withdrawExact_iff h⟩

/-- The deposit of seven units and the withdrawal of nothing. -/
theorem bridge_amounts_exact_sample :
    DepositExact id (BridgeRoots.deposit id (.real id)) ∧
      WithdrawExact id (BridgeRoots.withdraw id (.real id)) := by
  have hexact := bridge_amounts_exact id
  constructor
  · refine (hexact.1 _ BridgeRoots.real_valid.deposit_satisfied).mpr ⟨⟨?_, rfl⟩, ?_, ?_⟩
    · show ∀ k, U256AdditionChain.limbTotal 0 ![BridgeRoots.amount] k +
        (BridgeRoots.sum.carry k).val = _
      decide +kernel
    · show ∀ k, (BridgeRoots.amount k).val < 2 ^ 32
      decide +kernel
    · show ∀ k, ((0 : Fin 5 → F) k).val < 2 ^ 32
      decide +kernel
  · refine (hexact.2 _ BridgeRoots.real_valid.withdraw_satisfied).mpr ⟨fun i => ⟨?_, rfl⟩, ?_, ?_⟩
    · show ∀ k, U256AdditionChain.limbTotal 0 ![0] k + (BridgeRoots.zeroSum.carry k).val =
        (BridgeRoots.zeroSum.result k).val + (BridgeRoots.zeroSum.carryOut k).val * 2 ^ 32
      decide +kernel
    · show ∀ i k, ((0 : Fin Circuit.NOTE_BATCH → U256Target) i k).val < 2 ^ 32
      decide +kernel
    · show ∀ k, ((0 : Fin 5 → F) k).val < 2 ^ 32
      decide +kernel

/-! ## Inexact assignments -/

/-- A deposit of `2^32 + 5` units, all on the lowest limb. -/
def inflated : BridgeRoots.DepositData where
  assetId := 9
  amount := ![4294967301, 0, 0, 0, 0, 0, 0, 0]
  sum := {
    result := ![5, 1, 0, 0, 0, 0, 0, 0]
    carryOut := ![1, 0, 0, 0, 0, 0, 0, 0]
    bytes := fun k j => if j = 0 then if k = 0 then 5 else if k = 1 then 1 else 0 else 0 }
  ethAddress := 0

theorem inflated_satisfied : inflated.sum.Satisfied 0 ![inflated.amount] where
  range := by decide +kernel
  limb := by decide +kernel

/-- Five units, on the lowest limb. -/
def fiveUnits : U256Target := ![5, 0, 0, 0, 0, 0, 0, 0]

/-- A sum of five units with result zero: every carry is the incoming amount divided by `2^32`
in the field, and the last one is dropped. -/
def vanishing : U256AdditionChain where
  result := 0
  carryOut := fun k => 5 * (1 - 2 ^ 32) ^ (k.val + 1)
  bytes := 0

theorem vanishing_satisfied : vanishing.Satisfied 0 ![fiveUnits] where
  range := by decide +kernel
  limb := by decide +kernel

/-- A withdrawal of five units of asset `9` from an account that holds nothing. -/
def unbacked : BridgeRoots.WithdrawData where
  assetIds := fun _ => 9
  amounts := fun _ => fiveUnits
  rhs := fun _ => vanishing
  wAccAddr := 0

/-- A real deposit credits `2^32 + 5` units where the contract reads five, and a real
withdrawal pays five units in every slot out of nothing. -/
theorem bridge_amounts_diverge :
    (∀ perm : State → State,
      let t := BridgeRoots.depositOf perm (.real perm) inflated
      t.Satisfied perm ∧ t.notFakeTx = 1 ∧ ¬ DepositExact perm t ∧
      t.accinAmt.value = 0 ∧ t.accoutAmt.value = 2 ^ 32 + 5 ∧
      ∀ data s, HasDeposit data s (t.publicTargets perm) →
        (cdGLU256 data (dSlotOff s + D_AMT_OFF)).toNat = 5) ∧
    ∀ perm : State → State,
      let t := BridgeRoots.withdrawOf perm (.real perm) unbacked
      t.Satisfied perm ∧ t.notFakeTx = 1 ∧ ¬ WithdrawExact perm t ∧
      (∀ i, (t.accinAmts i).value = 0) ∧
      ∀ data s, HasWithdraw data s (t.publicTargets perm) →
        ∀ i, ((readWithdrawal data s).amounts i).toNat = 5 := by
  constructor
  · intro perm t
    have hlimb : ¬ (inflated.amount 0).val < 2 ^ 32 := by decide +kernel
    have hout : inflated.sum.result.value = 2 ^ 32 + 5 := by decide +kernel
    have hlow : lowLimbsValue inflated.amount = 5 := by decide +kernel
    refine ⟨BridgeRoots.real_valid.depositOf_satisfied inflated_satisfied, rfl, ?_, ?_, hout, ?_⟩
    · intro hexact
      exact hlimb (hexact.amount_limbs 0)
    · show U256Target.value 0 = 0
      decide +kernel
    · intro data s hdata
      exact hdata.reads.amount.trans hlow
  · intro perm t
    have hzero : U256Target.value 0 = 0 := by decide +kernel
    have hfive : fiveUnits.value = 5 := by decide +kernel
    have hlow : lowLimbsValue fiveUnits = 5 := by decide +kernel
    refine ⟨BridgeRoots.real_valid.withdrawOf_satisfied (fun _ => vanishing_satisfied) fun _ => rfl,
      rfl, ?_, fun _ => hzero, ?_⟩
    · intro hexact
      have hdebit : U256Target.value 0 = U256Target.value 0 + fiveUnits.value := hexact.debited 0
      omega
    · intro data s hdata i
      exact (hdata.reads.amounts i).trans hlow

end Doxa.Contract
