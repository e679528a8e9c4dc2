import Doxa.Client.SpendBuild
import Mathlib.Data.BitVec

/-!
# When a withdrawal is built

`build` compares each requested amount with the balance of the account before any withdrawal.
The slots are filled one after the other, each from the tree the last one left, so that the
second withdrawal of an asset meets a balance that was never checked: it is subtracted without a
check. The asset is looked up, updated and unwrapped, which fails for an unknown asset and for the
default one. `Safe` collects what has to hold for none of this to matter, and
`withdraw_build_total` shows that nothing else does.
-/

namespace Doxa.Client

open Lib Circuit Trees
open Contract (U256)

/-! ## Reading and updating one asset -/

namespace AccountStateTree

variable (perm : State → State)

/-- `merkle_proof_at`. -/
def merkleProofAt (self : AccountStateTree) (index : ℕ) : Except Failure (MerkleProof HashOut) :=
  unwrap (treeResult (self.tree.merkleProof (hashOutput perm) index))

/-- `next_index`. -/
def nextIndex (self : AccountStateTree) : ℕ := self.tree.numLeaves

/-- `amount_for(..).map(|(_, b)| b).unwrap_or_default()`. -/
def balance (self : AccountStateTree) (assetId : F) : U256 :=
  ((self.amountFor assetId).map Prod.snd).getD 0

variable {perm} {ast ast' : AccountStateTree} {ds : List HashOut} {assetId : F} {amount : U256}

theorem balance_of_amountFor {i : ℕ} (h : ast.amountFor assetId = some (i, amount)) :
    ast.balance assetId = amount := by
  rw [balance, h]
  rfl

theorem mem_of_amountFor {entry : ℕ × U256} (h : ast.amountFor assetId = some entry) :
    assetId ∈ ast.assets := by
  apply AList.lookup_isSome.mp
  rw [show ast.assets.lookup assetId = some entry from h]
  rfl

theorem amountFor_of_mem (h : assetId ∈ ast.assets) :
    ∃ i, ast.amountFor assetId = some (i, ast.balance assetId) := by
  obtain ⟨⟨i, amount⟩, hentry⟩ := Option.isSome_iff_exists.mp (AList.lookup_isSome.mpr h)
  refine ⟨i, ?_⟩
  rw [balance_of_amountFor hentry]
  exact hentry

theorem Mirrors.merkleProofAt (hm : Mirrors perm ast ds) (i : ℕ) :
    ast.merkleProofAt perm i = .ok (proofOf (hashOutput perm) ACC_AST_DEPTH ds i) := by
  unfold AccountStateTree.merkleProofAt
  rw [merkleProof_represents hm.tree depth_pos hm.room]
  rfl

theorem updateAsset_assets {i : ℕ} {prev : U256}
    (hentry : ast.amountFor assetId = some (i, prev)) {old : U256}
    (h : ast.updateAsset perm assetId amount = .ok (ast', old)) :
    ast'.assets = ast.assets.insert assetId (i, amount) := by
  unfold updateAsset at h
  split at h
  · cases h
  rw [show ast.assets.lookup assetId = some (i, prev) from hentry] at h
  obtain ⟨t, -, hret⟩ := bind_eq_ok.mp h
  rw [pure_eq_ok, Prod.mk.injEq] at hret
  rw [← hret.1]

/-- A known asset that is not the default one is updated where it is. -/
theorem Mirrors.insertOrUpdateAsset_known (hm : Mirrors perm ast ds) (h0 : assetId ≠ 0) {i : ℕ}
    {prev : U256} (hentry : ast.amountFor assetId = some (i, prev)) (amount : U256) :
    ∃ ast', ast.insertOrUpdateAsset perm assetId amount = .ok (ast', some prev) ∧
      ast'.assets = ast.assets.insert assetId (i, amount) ∧ i < ds.length ∧
      Mirrors perm ast' (ds.set i (leafCommitment perm assetId amount)) := by
  have hmem := mem_of_amountFor hentry
  obtain ⟨⟨ast', old⟩, hupdate⟩ := hm.updateAsset_iff.mpr ⟨h0, hmem⟩
  obtain ⟨j, hj, hlt, -, hm'⟩ := hm.updateAsset_set hupdate
  rw [hentry, Option.some.injEq, Prod.mk.injEq] at hj
  obtain ⟨rfl, rfl⟩ := hj
  refine ⟨ast', ?_, updateAsset_assets hentry hupdate, hlt, hm'⟩
  rw [AccountStateTree.insertOrUpdateAsset, if_pos hmem]
  exact bind_eq_ok.mpr ⟨_, unwrap_eq_ok.mpr hupdate, rfl⟩

end AccountStateTree

end Doxa.Client

namespace Doxa.Client.Withdraw

open Lib Circuit Trees
open AccountStateTree (Mirrors)
open Spend (SubpoolFullProof)
open Contract (U256)

/-! ## The builder -/

/-- The errors of the builder; `panic` is a failed `unwrap` or an underflow. -/
inductive WithdrawTxBuilderError
  | accountNotInitialized
  | tooManyWithdrawals (limit : ℕ)
  | noWithdrawals
  | insufficientBalance (assetId : F) (balance withdrawal : U256)
  | approvalSignRequired
  | spendSignRequired
  | accountPathNotSet
  | subpoolProofNotSet
  | panic
  deriving DecidableEq

def orPanic {α : Type} : Except Failure α → Except WithdrawTxBuilderError α
  | .ok a => .ok a
  | .error _ => .error .panic

structure WithdrawRealTxBuilder where
  accin : StandardAccount
  wAccAddr : H160
  withdrawals : List (F × U256)

/-- The validated transaction, with the signatures and proofs attached so far. -/
structure BuiltWithdrawRealTx where
  accin : StandardAccount
  accout : StandardAccount
  withdrawals : List (F × U256)
  wAccAddr : H160
  txHash : HashOut
  approvalSig : Option Signature
  spendSig : Option Signature
  accinProof : Option (MerkleProof HashOut)
  subpoolProof : Option SubpoolFullProof

/-- What `compute_withdrawal_slots` puts into one slot. -/
structure WithdrawalSlot where
  assetId : F
  withdrawalAmt : U256
  accinAmt : U256
  accoutAmt : U256
  existsIn : Bool
  existsOut : Bool
  proof : MerkleProof HashOut

structure WithdrawalSlots where
  slots : List WithdrawalSlot
  accout : StandardAccount

/-- `unwrap` of an option. -/
def unwrapSome {α : Type} : Option α → Except Failure α
  | some a => .ok a
  | none => .error .panic

theorem unwrapSome_eq_ok {α : Type} {x : Option α} {a : α} :
    unwrapSome x = .ok a ↔ x = some a := by
  cases x with
  | none => simp only [unwrapSome, reduceCtorEq]
  | some b => simp only [unwrapSome, Except.ok.injEq, Option.some.injEq]

variable (perm : State → State)

/-- The slot of a withdrawal that finds `oldBal`. -/
def withdrawalSlot (withdrawal : F × U256) (oldBal : U256) (proof : MerkleProof HashOut) :
    WithdrawalSlot where
  assetId := withdrawal.1
  withdrawalAmt := withdrawal.2
  accinAmt := oldBal
  accoutAmt := oldBal - withdrawal.2
  existsIn := true
  existsOut := oldBal - withdrawal.2 > 0
  proof := proof

def paddingSlot (proof : MerkleProof HashOut) : WithdrawalSlot where
  assetId := 0
  withdrawalAmt := 0
  accinAmt := 0
  accoutAmt := 0
  existsIn := false
  existsOut := false
  proof := proof

/-- One round of the loop: a withdrawal, or padding at the next unused leaf. -/
def fillSlot (withdrawal : Option (F × U256)) (currentAst : AccountStateTree) :
    Except Failure (AccountStateTree × WithdrawalSlot) :=
  match withdrawal with
  | some withdrawal => do
    let entry ← unwrapSome (currentAst.amountFor withdrawal.1)
    let proof ← currentAst.merkleProofAt perm entry.1
    -- `-` panics where the amount exceeds the balance
    revertIf (entry.2 < withdrawal.2) Failure.panic
    let updated ← currentAst.insertOrUpdateAsset perm withdrawal.1 (entry.2 - withdrawal.2)
    let _ ← unwrapSome updated.2
    return (updated.1, withdrawalSlot withdrawal entry.2 proof)
  | none => do
    let proof ← currentAst.merkleProofAt perm currentAst.nextIndex
    return (currentAst, paddingSlot proof)

/-- The body of the loop over the slots. -/
def slotRound (withdrawals : List (F × U256)) (i : ℕ)
    (state : AccountStateTree × List WithdrawalSlot) :
    Except Failure (AccountStateTree × List WithdrawalSlot) := do
  let filled ← fillSlot perm withdrawals[i]? state.1
  return (filled.1, state.2 ++ [filled.2])

def computeWithdrawalSlots (accin : StandardAccount) (withdrawals : List (F × U256)) :
    Except Failure WithdrawalSlots := do
  let filled ← tryLoop (slotRound perm withdrawals) NOTE_BATCH (accin.ast, [])
  return { slots := filled.2, accout := { accin.cloneWithIncrementedNonce with ast := filled.1 } }

/-- The arrays of a field, slot by slot. -/
def WithdrawalSlots.assetIds (self : WithdrawalSlots) : Fin NOTE_BATCH → F := fun i =>
  ((self.slots[i.val]?).map WithdrawalSlot.assetId).getD 0

def WithdrawalSlots.withdrawalAmts (self : WithdrawalSlots) : Fin NOTE_BATCH → U256 := fun i =>
  ((self.slots[i.val]?).map WithdrawalSlot.withdrawalAmt).getD 0

namespace WithdrawRealTxBuilder

def new (accin : StandardAccount) (wAccAddr : H160) :
    Except WithdrawTxBuilderError WithdrawRealTxBuilder :=
  if accin.nonce = 0 then .error .accountNotInitialized
  else .ok { accin := accin, wAccAddr := wAccAddr, withdrawals := [] }

variable (self : WithdrawRealTxBuilder)

def addWithdrawal (assetId : F) (amount : U256) :
    Except WithdrawTxBuilderError WithdrawRealTxBuilder :=
  if self.withdrawals.length = NOTE_BATCH then .error (.tooManyWithdrawals NOTE_BATCH)
  else .ok { self with withdrawals := self.withdrawals ++ [(assetId, amount)] }

/-- The entries of a list added one after the other. -/
def addWithdrawals (withdrawals : List (F × U256)) :
    Except WithdrawTxBuilderError WithdrawRealTxBuilder :=
  withdrawals.foldlM (fun b w => b.addWithdrawal w.1 w.2) self

/-- The loop over the balances. -/
def checkBalances : Except WithdrawTxBuilderError Unit :=
  self.withdrawals.forM fun w =>
    revertIf (self.accin.ast.balance w.1 < w.2)
      (.insufficientBalance w.1 (self.accin.ast.balance w.1) w.2)

def build : Except WithdrawTxBuilderError BuiltWithdrawRealTx := do
  revertIf (self.withdrawals = []) WithdrawTxBuilderError.noWithdrawals
  self.checkBalances
  let slots ← orPanic (computeWithdrawalSlots perm self.accin self.withdrawals)
  let accinNull ← orPanic (self.accin.nullifier perm)
  let accoutComm ← orPanic (slots.accout.commitment perm)
  let txHash := deriveWithdrawTxHash perm accinNull accoutComm slots.assetIds slots.withdrawalAmts
    self.wAccAddr
  return {
    accin := self.accin
    accout := slots.accout
    withdrawals := self.withdrawals
    wAccAddr := self.wAccAddr
    txHash := txHash
    approvalSig := none
    spendSig := none
    accinProof := none
    subpoolProof := none }

end WithdrawRealTxBuilder

/-! ## Requested amounts -/

/-- What a list of withdrawals takes from one asset. -/
def requested (ws : List (F × U256)) (assetId : F) : ℕ :=
  (ws.map fun w => if w.1 = assetId then w.2.toNat else 0).sum

section Requested

variable {ws done : List (F × U256)} {w : F × U256} {assetId : F}

theorem requested_concat :
    requested (done ++ [w]) assetId =
      requested done assetId + if w.1 = assetId then w.2.toNat else 0 := by
  simp [requested]

theorem requested_concat_self : requested (done ++ [w]) w.1 = requested done w.1 + w.2.toNat := by
  rw [requested_concat, if_pos rfl]

theorem requested_concat_ne (h : w.1 ≠ assetId) :
    requested (done ++ [w]) assetId = requested done assetId := by
  rw [requested_concat, if_neg h, Nat.add_zero]

/-- The first withdrawals take no more than all. -/
theorem requested_take_le (k : ℕ) : requested (ws.take k) assetId ≤ requested ws assetId := by
  conv_rhs => rw [← List.take_append_drop k ws]
  rw [requested, requested, List.map_append, List.sum_append]
  exact Nat.le_add_right _ _

theorem le_requested (h : w ∈ ws) : w.2.toNat ≤ requested ws w.1 := by
  have hmem : (if w.1 = w.1 then w.2.toNat else 0) ∈
      ws.map fun v => if v.1 = w.1 then v.2.toNat else 0 :=
    List.mem_map.mpr ⟨w, h, rfl⟩
  rw [if_pos rfl] at hmem
  exact List.le_sum_of_mem hmem

/-- Nothing is requested of an asset that is not listed. -/
theorem requested_eq_zero (h : ∀ w ∈ ws, w.1 ≠ assetId) : requested ws assetId = 0 := by
  refine List.sum_eq_zero fun n hn => ?_
  obtain ⟨w, hw, rfl⟩ := List.mem_map.mp hn
  exact if_neg (h w hw)

end Requested

variable {perm}

/-! ## One slot -/

section Slot

variable {ast : AccountStateTree} {ds : List HashOut} {w : F × U256}

theorem fillSlot_padding (hm : Mirrors perm ast ds) :
    fillSlot perm none ast =
      .ok (ast, paddingSlot (proofOf (hashOutput perm) ACC_AST_DEPTH ds ds.length)) := by
  refine bind_eq_ok.mpr ⟨_, hm.merkleProofAt _, ?_⟩
  rw [AccountStateTree.nextIndex, hm.numLeaves]
  rfl

/-- A covered withdrawal of a known asset rewrites the leaf of the asset. -/
theorem fillSlot_withdrawal (hm : Mirrors perm ast ds) (h0 : w.1 ≠ 0) {i : ℕ}
    {oldBal : U256} (hentry : ast.amountFor w.1 = some (i, oldBal))
    (hcovered : w.2.toNat ≤ oldBal.toNat) :
    ∃ ast', fillSlot perm (some w) ast =
        .ok (ast', withdrawalSlot w oldBal (proofOf (hashOutput perm) ACC_AST_DEPTH ds i)) ∧
      ast'.assets = ast.assets.insert w.1 (i, oldBal - w.2) ∧ i < ds.length ∧
      Mirrors perm ast' (ds.set i (leafCommitment perm w.1 (oldBal - w.2))) := by
  obtain ⟨ast', hupdate, hassets, hi, hm'⟩ :=
    hm.insertOrUpdateAsset_known h0 hentry (oldBal - w.2)
  refine ⟨ast', ?_, hassets, hi, hm'⟩
  refine bind_eq_ok.mpr ⟨_, unwrapSome_eq_ok.mpr hentry,
    bind_eq_ok.mpr ⟨_, hm.merkleProofAt i, revertIf_bind_eq_ok.mpr ⟨?_, ?_⟩⟩⟩
  · exact Nat.not_lt.mpr hcovered
  · exact bind_eq_ok.mpr ⟨_, hupdate, bind_eq_ok.mpr ⟨oldBal, rfl, rfl⟩⟩

/-- What a filled slot says about its withdrawal. -/
theorem fillSlot_needs (hm : Mirrors perm ast ds)
    {r : AccountStateTree × WithdrawalSlot} (h : fillSlot perm (some w) ast = .ok r) :
    w.1 ≠ 0 ∧ ∃ i oldBal, ast.amountFor w.1 = some (i, oldBal) ∧ w.2.toNat ≤ oldBal.toNat := by
  obtain ⟨⟨i, oldBal⟩, hentry, h⟩ := bind_eq_ok.mp h
  obtain ⟨proof, -, hrest⟩ := bind_eq_ok.mp h
  obtain ⟨hcovered, hrest⟩ := revertIf_bind_eq_ok.mp hrest
  obtain ⟨updated, hupdate, -⟩ := bind_eq_ok.mp hrest
  exact ⟨(hm.insertOrUpdateAsset_iff.mp ⟨updated, hupdate⟩).1, i, oldBal,
    unwrapSome_eq_ok.mp hentry, Nat.not_lt.mp hcovered⟩

end Slot

/-! ## The loop over the slots -/

variable (perm) in
/-- The tree after some withdrawals: the same assets, with what is left of each. -/
structure Debited (ast₀ ast : AccountStateTree) (done : List (F × U256)) : Prop where
  mirrors : ∃ ds, Mirrors perm ast ds
  known : ∀ assetId, assetId ∈ ast.assets ↔ assetId ∈ ast₀.assets
  balance : ∀ assetId,
    (ast.balance assetId).toNat + requested done assetId = (ast₀.balance assetId).toNat
  entries : ∀ w ∈ done, w.1 ≠ 0 ∧ w.1 ∈ ast₀.assets

/-- Every requested asset is known and is not the default one. -/
def Known (ast : AccountStateTree) (ws : List (F × U256)) : Prop :=
  ∀ w ∈ ws, w.1 ≠ 0 ∧ w.1 ∈ ast.assets

/-- No asset is asked for more than its balance. -/
def Covered (ast : AccountStateTree) (ws : List (F × U256)) : Prop :=
  ∀ assetId, requested ws assetId ≤ (ast.balance assetId).toNat

section Loop

variable {ast₀ ast ast' : AccountStateTree} {done ws : List (F × U256)} {w : F × U256}

theorem Debited.start (h : ∃ ds, Mirrors perm ast₀ ds) : Debited perm ast₀ ast₀ [] :=
  ⟨h, fun _ => Iff.rfl, fun _ => rfl, fun _ h => absurd h List.not_mem_nil⟩

/-- One withdrawal more. -/
theorem Debited.concat (h : Debited perm ast₀ ast done) (h0 : w.1 ≠ 0) {i : ℕ} {oldBal : U256}
    (hentry : ast.amountFor w.1 = some (i, oldBal)) (hcovered : w.2.toNat ≤ oldBal.toNat)
    (hassets : ast'.assets = ast.assets.insert w.1 (i, oldBal - w.2))
    (hm' : ∃ ds, Mirrors perm ast' ds) : Debited perm ast₀ ast' (done ++ [w]) := by
  have hmem := (h.known w.1).mp (AccountStateTree.mem_of_amountFor hentry)
  refine ⟨hm', fun a => ?_, fun a => ?_, fun v hv => ?_⟩
  · rw [hassets, AList.mem_insert, ← h.known a]
    refine or_iff_right_of_imp ?_
    rintro rfl
    exact AccountStateTree.mem_of_amountFor hentry
  · have hbalance := h.balance a
    by_cases ha : w.1 = a
    · subst ha
      have hnew : ast'.balance w.1 = oldBal - w.2 := by
        apply AccountStateTree.balance_of_amountFor
        rw [AccountStateTree.amountFor, hassets]
        exact AList.lookup_insert _
      have hsub : (oldBal - w.2).toNat = oldBal.toNat - w.2.toNat := BitVec.toNat_sub_of_le hcovered
      rw [AccountStateTree.balance_of_amountFor hentry] at hbalance
      rw [hnew, hsub, requested_concat_self]
      omega
    · have hsame : ast'.balance a = ast.balance a := by
        rw [AccountStateTree.balance, AccountStateTree.balance, AccountStateTree.amountFor, hassets,
          AList.lookup_insert_ne (Ne.symm ha)]
        rfl
      rw [hsame, requested_concat_ne ha]
      exact hbalance
  · rcases List.mem_append.mp hv with hv | hv
    · exact h.entries v hv
    · rw [List.mem_singleton.mp hv]
      exact ⟨h0, hmem⟩

/-- A round of the loop that succeeds. -/
theorem Debited.round {k : ℕ} {state state' : AccountStateTree × List WithdrawalSlot}
    (h : Debited perm ast₀ state.1 (ws.take k)) (hround : slotRound perm ws k state = .ok state') :
    Debited perm ast₀ state'.1 (ws.take (k + 1)) := by
  obtain ⟨filled, hfill, hret⟩ := bind_eq_ok.mp hround
  obtain rfl := pure_eq_ok.mp hret
  obtain ⟨ds, hm⟩ := h.mirrors
  cases hw : ws[k]? with
  | none =>
    have hlen := List.getElem?_eq_none_iff.mp hw
    rw [hw, fillSlot_padding hm, Except.ok.injEq] at hfill
    rw [← hfill, List.take_of_length_le (by omega), ← List.take_of_length_le hlen]
    exact h
  | some w =>
    rw [hw] at hfill
    obtain ⟨h0, i, oldBal, hentry, hcovered⟩ := fillSlot_needs hm hfill
    obtain ⟨ast', hok, hassets, -, hm'⟩ := fillSlot_withdrawal hm h0 hentry hcovered
    rw [hok, Except.ok.injEq] at hfill
    rw [← hfill, List.take_add_one, hw]
    exact h.concat h0 hentry hcovered hassets ⟨_, hm'⟩

/-- A round succeeds for an asset that is known and covered. -/
theorem Debited.round_ok (hknown : Known ast₀ ws) (hcovered : Covered ast₀ ws) {k : ℕ}
    {state : AccountStateTree × List WithdrawalSlot}
    (h : Debited perm ast₀ state.1 (ws.take k)) : ∃ state', slotRound perm ws k state = .ok state' := by
  obtain ⟨ds, hm⟩ := h.mirrors
  cases hw : ws[k]? with
  | none => exact ⟨_, bind_eq_ok.mpr ⟨_, by rw [hw]; exact fillSlot_padding hm, rfl⟩⟩
  | some w =>
    obtain ⟨h0, hmem⟩ := hknown w (List.mem_of_getElem? hw)
    obtain ⟨i, hentry⟩ := AccountStateTree.amountFor_of_mem ((h.known w.1).mpr hmem)
    have htake : requested (ws.take (k + 1)) w.1 = requested (ws.take k) w.1 + w.2.toNat := by
      rw [List.take_add_one, hw]
      exact requested_concat_self
    have hle := @requested_take_le ws w.1 (k + 1)
    have hall := hcovered w.1
    have hbalance := h.balance w.1
    obtain ⟨ast', hok, -⟩ := fillSlot_withdrawal hm h0 hentry (show w.2.toNat ≤ _ by omega)
    exact ⟨_, bind_eq_ok.mpr ⟨_, by rw [hw]; exact hok, rfl⟩⟩

/-- The slots can be filled if and only if the assets are known and covered. -/
theorem computeWithdrawalSlots_iff {accin : StandardAccount}
    (hm : ∃ ds, Mirrors perm accin.ast ds) (hlen : ws.length ≤ NOTE_BATCH) :
    (∃ slots, computeWithdrawalSlots perm accin ws = .ok slots) ↔
      Known accin.ast ws ∧ Covered accin.ast ws := by
  constructor
  · rintro ⟨slots, h⟩
    obtain ⟨filled, hloop, -⟩ := bind_eq_ok.mp h
    have hdebited := tryLoop_inv (fun k state => Debited perm accin.ast state.1 (ws.take k))
      (Debited.start hm) (fun k _ state state' hstate hround => hstate.round hround) hloop
    simp only [List.take_of_length_le hlen] at hdebited
    refine ⟨hdebited.entries, fun a => ?_⟩
    have hbalance := hdebited.balance a
    omega
  · rintro ⟨hknown, hcovered⟩
    obtain ⟨filled, hloop, -⟩ := @tryLoop_ok _ _ (slotRound perm ws) NOTE_BATCH (accin.ast, [])
      (fun k state => Debited perm accin.ast state.1 (ws.take k)) (Debited.start hm)
      (fun k _ state hstate => (hstate.round_ok hknown hcovered).imp fun state' hround =>
        ⟨hround, hstate.round hround⟩)
    exact ⟨_, bind_eq_ok.mpr ⟨filled, hloop, rfl⟩⟩

end Loop

/-! ## The outcome of `build` -/

theorem orPanic_eq_ok {α : Type} {x : Except Failure α} {a : α} :
    orPanic x = .ok a ↔ x = .ok a := by
  cases x with
  | ok b => simp only [orPanic, Except.ok.injEq]
  | error e => simp only [orPanic, reduceCtorEq]

theorem orPanic_eq_error {α : Type} {x : Except Failure α} {e : WithdrawTxBuilderError}
    (h : orPanic x = .error e) : e = .panic := by
  cases x with
  | ok b => cases h
  | error e => exact (Except.error.inj h).symm

/-- The checks of `build` pass, or the first entry above its balance is reported. -/
theorem forM_revertIf_cases {α ε : Type} {p : α → Prop} [DecidablePred p] (e : α → ε) (xs : List α) :
    ((∀ x ∈ xs, ¬ p x) ∧ xs.forM (fun x => revertIf (p x) (e x)) = .ok ()) ∨
      ∃ x ∈ xs, p x ∧ xs.forM (fun x => revertIf (p x) (e x)) = .error (e x) := by
  induction xs with
  | nil => exact .inl ⟨fun x hx => absurd hx List.not_mem_nil, rfl⟩
  | cons x xs ih =>
    rw [show (x :: xs).forM (fun x => revertIf (p x) (e x)) =
      (revertIf (p x) (e x) >>= fun _ => xs.forM fun x => revertIf (p x) (e x)) from rfl]
    by_cases hx : p x
    · refine .inr ⟨x, List.mem_cons_self, hx, ?_⟩
      rw [revertIf, if_pos hx]
      rfl
    · rw [revertIf_of_not hx]
      rcases ih with ⟨hall, hok⟩ | ⟨y, hy, hpy, herr⟩
      · exact .inl ⟨List.forall_mem_cons.mpr ⟨hx, hall⟩, hok⟩
      · exact .inr ⟨y, List.mem_cons_of_mem _ hy, hpy, herr⟩

variable (perm) in
/-- `build` from the slots on. -/
def WithdrawRealTxBuilder.finish (self : WithdrawRealTxBuilder) :
    Except WithdrawTxBuilderError BuiltWithdrawRealTx := do
  let slots ← orPanic (computeWithdrawalSlots perm self.accin self.withdrawals)
  let accinNull ← orPanic (self.accin.nullifier perm)
  let accoutComm ← orPanic (slots.accout.commitment perm)
  return {
    accin := self.accin
    accout := slots.accout
    withdrawals := self.withdrawals
    wAccAddr := self.wAccAddr
    txHash := deriveWithdrawTxHash perm accinNull accoutComm slots.assetIds slots.withdrawalAmts
      self.wAccAddr
    approvalSig := none
    spendSig := none
    accinProof := none
    subpoolProof := none }

section Outcome

variable {b : WithdrawRealTxBuilder} {accin : StandardAccount} {ws : List (F × U256)}

/-- The output account has a tree with a root, and the keys of the input account. -/
theorem computeWithdrawalSlots_accout {slots : WithdrawalSlots}
    (hm : ∃ ds, Mirrors perm accin.ast ds) (h : computeWithdrawalSlots perm accin ws = .ok slots) :
    (∃ r, slots.accout.ast.root perm = .ok r) ∧
      slots.accout.consumeAuth = accin.consumeAuth := by
  obtain ⟨filled, hloop, hret⟩ := bind_eq_ok.mp h
  have hdebited := tryLoop_inv (fun k state => Debited perm accin.ast state.1 (ws.take k))
    (Debited.start hm) (fun k _ state state' hstate hround => hstate.round hround) hloop
  obtain ⟨ds, hm'⟩ := hdebited.mirrors
  rw [← pure_eq_ok.mp hret]
  exact ⟨⟨_, hm'.root⟩, rfl⟩

theorem finish_iff (hm : ∃ ds, Mirrors perm b.accin.ast ds)
    (hlen : b.withdrawals.length ≤ NOTE_BATCH) :
    (∃ tx, b.finish perm = .ok tx) ↔ Known b.accin.ast b.withdrawals ∧
      Covered b.accin.ast b.withdrawals ∧ b.accin.consumeAuth.KeySet := by
  have hroot : ∃ r, b.accin.ast.root perm = .ok r := by
    obtain ⟨ds, hds⟩ := hm
    exact ⟨_, hds.root⟩
  rw [← and_assoc, ← computeWithdrawalSlots_iff hm hlen]
  constructor
  · rintro ⟨tx, h⟩
    obtain ⟨slots, hslots, h⟩ := bind_eq_ok.mp h
    obtain ⟨null, hnull, -⟩ := bind_eq_ok.mp h
    exact ⟨⟨slots, orPanic_eq_ok.mp hslots⟩,
      (nullifier_iff hroot).mp ⟨null, orPanic_eq_ok.mp hnull⟩⟩
  · rintro ⟨⟨slots, hslots⟩, hkey⟩
    obtain ⟨null, hnull⟩ := (nullifier_iff hroot).mpr hkey
    obtain ⟨hroot', hauth⟩ := computeWithdrawalSlots_accout hm hslots
    obtain ⟨comm, hcomm⟩ := (commitment_iff hroot').mpr (by rw [hauth]; exact hkey)
    exact ⟨_, bind_eq_ok.mpr ⟨slots, orPanic_eq_ok.mpr hslots,
      bind_eq_ok.mpr ⟨null, orPanic_eq_ok.mpr hnull,
        bind_eq_ok.mpr ⟨comm, orPanic_eq_ok.mpr hcomm, rfl⟩⟩⟩⟩

variable (perm) in
theorem finish_cases (b : WithdrawRealTxBuilder) :
    (∃ tx, b.finish perm = .ok tx) ∨ b.finish perm = .error .panic := by
  cases h : b.finish perm with
  | ok tx => exact .inl ⟨tx, rfl⟩
  | error e =>
    refine .inr ?_
    rcases bind_eq_error.mp h with h | ⟨slots, -, h⟩
    · rw [orPanic_eq_error h]
    rcases bind_eq_error.mp h with h | ⟨null, -, h⟩
    · rw [orPanic_eq_error h]
    rcases bind_eq_error.mp h with h | ⟨comm, -, h⟩
    · rw [orPanic_eq_error h]
    · cases h

/-- Nothing to withdraw, an entry above its balance, or the slots. -/
theorem build_cases (perm : State → State) (b : WithdrawRealTxBuilder) :
    (b.withdrawals = [] ∧ b.build perm = .error .noWithdrawals) ∨
      (∃ w ∈ b.withdrawals, b.accin.ast.balance w.1 < w.2 ∧
        b.build perm =
          .error (.insufficientBalance w.1 (b.accin.ast.balance w.1) w.2)) ∨
      (b.withdrawals ≠ [] ∧ (∀ w ∈ b.withdrawals, ¬ b.accin.ast.balance w.1 < w.2) ∧
        b.build perm = b.finish perm) := by
  by_cases hempty : b.withdrawals = []
  · refine .inl ⟨hempty, ?_⟩
    have hguard : revertIf (b.withdrawals = []) WithdrawTxBuilderError.noWithdrawals =
      .error .noWithdrawals := if_pos hempty
    unfold WithdrawRealTxBuilder.build
    rw [hguard]
    rfl
  · refine .inr ?_
    have hbuild : b.build perm = (b.checkBalances >>= fun _ => b.finish perm) := by
      unfold WithdrawRealTxBuilder.build
      rw [revertIf_of_not hempty]
      rfl
    rw [hbuild]
    rcases @forM_revertIf_cases _ _ (fun w => b.accin.ast.balance w.1 < w.2) _
      (fun w => WithdrawTxBuilderError.insufficientBalance w.1 (b.accin.ast.balance w.1) w.2)
      b.withdrawals with ⟨hall, hok⟩ | ⟨w, hw, hlt, herr⟩
    · exact .inr ⟨hempty, hall, by rw [WithdrawRealTxBuilder.checkBalances, hok, ok_bind]⟩
    · exact .inl ⟨w, hw, hlt, by rw [WithdrawRealTxBuilder.checkBalances, herr, error_bind]⟩

end Outcome

/-! ## What `build` should do -/

variable (perm) in
/-- `build` never panics, and refuses for a balance exactly what is not covered. -/
structure Total (b : WithdrawRealTxBuilder) : Prop where
  no_panic : b.build perm ≠ .error .panic
  refused : (∃ assetId balance withdrawal,
    b.build perm = .error (.insufficientBalance assetId balance withdrawal)) ↔
      ∃ assetId, (b.accin.ast.balance assetId).toNat < requested b.withdrawals assetId

/-- An entry alone is above its balance, or there is none, or the sums are covered, the assets known
and the account has its consume key. -/
def Safe (b : WithdrawRealTxBuilder) : Prop :=
  (∃ w ∈ b.withdrawals, b.accin.ast.balance w.1 < w.2) ∨ b.withdrawals = [] ∨
    (Covered b.accin.ast b.withdrawals ∧ Known b.accin.ast b.withdrawals ∧
      b.accin.consumeAuth.KeySet)

section Calls

variable {accin : StandardAccount} {wAccAddr : H160} {ws : List (F × U256)}
  {b₀ b : WithdrawRealTxBuilder}

theorem new_eq_ok (h : WithdrawRealTxBuilder.new accin wAccAddr = .ok b₀) :
    accin.nonce ≠ 0 ∧ b₀ = { accin := accin, wAccAddr := wAccAddr, withdrawals := [] } := by
  unfold WithdrawRealTxBuilder.new at h
  split at h
  · cases h
  · rename_i hnonce
    exact ⟨hnonce, (Except.ok.inj h).symm⟩

/-- The calls append their entries, up to the batch. -/
theorem addWithdrawals_eq_ok (h : b₀.addWithdrawals ws = .ok b)
    (hroom : b₀.withdrawals.length ≤ NOTE_BATCH) :
    b.accin = b₀.accin ∧ b.withdrawals = b₀.withdrawals ++ ws ∧
      b.withdrawals.length ≤ NOTE_BATCH := by
  induction ws generalizing b₀ with
  | nil =>
    obtain rfl := pure_eq_ok.mp h
    exact ⟨rfl, (List.append_nil _).symm, hroom⟩
  | cons w ws ih =>
    obtain ⟨b₁, hadd, hrest⟩ := bind_eq_ok.mp h
    replace hadd : b₀.addWithdrawal w.1 w.2 = .ok b₁ := hadd
    unfold WithdrawRealTxBuilder.addWithdrawal at hadd
    split at hadd
    · cases hadd
    · rename_i hfull
      obtain rfl := Except.ok.inj hadd
      obtain ⟨haccin, hlist, hlen⟩ := ih hrest (by
        rw [List.length_append, List.length_singleton]
        omega)
      exact ⟨haccin, by rw [hlist, List.append_assoc]; rfl, hlen⟩

theorem addWithdrawals_ok (hroom : b₀.withdrawals.length + ws.length ≤ NOTE_BATCH) :
    b₀.addWithdrawals ws = .ok { b₀ with withdrawals := b₀.withdrawals ++ ws } := by
  induction ws generalizing b₀ with
  | nil =>
    rw [List.append_nil]
    rfl
  | cons w ws ih =>
    rw [List.length_cons] at hroom
    refine bind_eq_ok.mpr ⟨{ b₀ with withdrawals := b₀.withdrawals ++ [w] }, ?_, ?_⟩
    · exact if_neg (by omega)
    · have hrest := @ih { b₀ with withdrawals := b₀.withdrawals ++ [w] } (by
        rw [List.length_append, List.length_singleton]
        omega)
      rw [List.append_assoc] at hrest
      exact hrest

end Calls

/-! ## An account with one asset -/

section Funded

variable {assetId : F} {amount : U256} {acc : StandardAccount} {ws : List (F × U256)}

variable (perm) in
/-- A new account after its first transaction, with one asset. -/
structure Funded (assetId : F) (amount : U256) (acc : StandardAccount) : Prop where
  reachable : acc.ast.Reachable perm
  mirrors : Mirrors perm acc.ast [leafCommitment perm 0 0, leafCommitment perm assetId amount]
  entry : acc.ast.amountFor assetId = some (1, amount)
  nonce : acc.nonce ≠ 0
  auth : acc.consumeAuth = .default

variable (perm) in
theorem exists_funded (h0 : assetId ≠ 0) (amount : U256) : ∃ acc, Funded perm assetId amount acc := by
  obtain ⟨acc, hnew, hnonce, hauth⟩ := Spend.exists_active perm
  have hm := AccountStateTree.new_eq_ok hnew
  have hfresh : assetId ∉ acc.ast.assets :=
    AList.lookup_eq_none.mp (Spend.new_amountFor hnew h0)
  obtain ⟨ast, hinsert⟩ := (@Mirrors.insertAsset_iff perm acc.ast _ assetId amount hm).mpr
    ⟨h0, hfresh, by rw [List.length_singleton]; decide⟩
  obtain ⟨-, -, hraw⟩ := AccountStateTree.insertAsset_eq_ok hinsert
  obtain ⟨t, i, -, hast⟩ := AccountStateTree._insertAsset_eq_ok hraw
  have hcount : acc.ast.tree.numLeaves = 1 := hm.numLeaves
  refine ⟨{ acc with ast := ast }, .insertAsset (.new hnew) hinsert, hm._insertAsset hfresh hraw, ?_,
    hnonce, hauth⟩
  show ast.assets.lookup assetId = _
  rw [hast, ← hcount]
  exact AList.lookup_insert _

theorem Funded.balance (h : Funded perm assetId amount acc) : acc.ast.balance assetId = amount :=
  AccountStateTree.balance_of_amountFor h.entry

/-- Withdrawals of this asset alone. -/
theorem Funded.covered_iff (h : Funded perm assetId amount acc) (hws : ∀ w ∈ ws, w.1 = assetId) :
    Covered acc.ast ws ↔ requested ws assetId ≤ amount.toNat := by
  rw [← h.balance]
  refine ⟨fun hcovered => hcovered assetId, fun hle a => ?_⟩
  by_cases ha : a = assetId
  · rw [ha]
    exact hle
  · rw [requested_eq_zero fun w hw heq => ha (heq.symm.trans (hws w hw))]
    exact Nat.zero_le _

theorem Funded.known (h : Funded perm assetId amount acc) (h0 : assetId ≠ 0)
    (hws : ∀ w ∈ ws, w.1 = assetId) : Known acc.ast ws := fun w hw => by
  rw [hws w hw]
  exact ⟨h0, AccountStateTree.mem_of_amountFor h.entry⟩

theorem Funded.keySet (h : Funded perm assetId amount acc) : acc.consumeAuth.KeySet := by
  rw [h.auth]
  exact fun hconfig => absurd hconfig Bool.false_ne_true

/-- The builder of these withdrawals. -/
theorem withdrawals_run (hnonce : acc.nonce ≠ 0) (wAccAddr : H160) (hroom : ws.length ≤ NOTE_BATCH) :
    ∃ b₀ b, WithdrawRealTxBuilder.new acc wAccAddr = .ok b₀ ∧ b₀.addWithdrawals ws = .ok b ∧
      b = { accin := acc, wAccAddr := wAccAddr, withdrawals := ws } := by
  refine ⟨{ accin := acc, wAccAddr := wAccAddr, withdrawals := [] }, _, if_neg hnonce,
    addWithdrawals_ok ?_, rfl⟩
  rw [List.length_nil, Nat.zero_add]
  exact hroom

end Funded

/-! ## Both sides -/

/-- The entries for which `build` is total and refuses exactly what is not covered. -/
theorem withdraw_build_total (perm : State → State) {accin : StandardAccount} {wAccAddr : H160}
    {ws : List (F × U256)} {b₀ b : WithdrawRealTxBuilder} (hast : accin.ast.Reachable perm)
    (hnew : WithdrawRealTxBuilder.new accin wAccAddr = .ok b₀)
    (hadd : b₀.addWithdrawals ws = .ok b) : Total perm b ↔ Safe b := by
  obtain ⟨-, rfl⟩ := new_eq_ok hnew
  obtain ⟨haccin, -, hlen⟩ := addWithdrawals_eq_ok hadd (Nat.zero_le _)
  have hm : ∃ ds, Mirrors perm b.accin.ast ds := by
    rw [haccin]
    exact hast.mirrors
  have hover : ∀ w ∈ b.withdrawals, b.accin.ast.balance w.1 < w.2 →
      ∃ a, (b.accin.ast.balance a).toNat < requested b.withdrawals a := fun w hw hlt =>
    ⟨w.1, Nat.lt_of_lt_of_le hlt (le_requested hw)⟩
  rcases build_cases perm b with ⟨hempty, hbuild⟩ | ⟨w, hw, hlt, hbuild⟩ | ⟨hne, hall, hbuild⟩
  · refine iff_of_true ⟨?_, ?_⟩ (.inr (.inl hempty))
    · rw [hbuild]
      exact fun h => by cases h
    · rw [hbuild, hempty]
      refine iff_of_false ?_ ?_
      · rintro ⟨a, bal, x, h⟩
        cases h
      · rintro ⟨a, h⟩
        exact absurd h (Nat.not_lt_zero _)
  · refine iff_of_true ⟨?_, ?_⟩ (.inl ⟨w, hw, hlt⟩)
    · rw [hbuild]
      exact fun h => by cases h
    · exact iff_of_true ⟨_, _, _, hbuild⟩ (hover w hw hlt)
  · have hsafe : Safe b ↔ ∃ tx, b.finish perm = .ok tx := by
      rw [finish_iff hm hlen]
      constructor
      · rintro (⟨w, hw, hlt⟩ | hempty | ⟨hcovered, hknown, hkey⟩)
        · exact absurd hlt (hall w hw)
        · exact absurd hempty hne
        · exact ⟨hknown, hcovered, hkey⟩
      · rintro ⟨hknown, hcovered, hkey⟩
        exact .inr (.inr ⟨hcovered, hknown, hkey⟩)
    rw [hsafe]
    rcases finish_cases perm b with ⟨tx, htx⟩ | hpanic
    · refine iff_of_true ⟨?_, ?_⟩ ⟨tx, htx⟩
      · rw [hbuild, htx]
        exact fun h => by cases h
      · rw [hbuild, htx]
        refine iff_of_false ?_ ?_
        · rintro ⟨a, bal, x, h⟩
          cases h
        · rintro ⟨a, hlt⟩
          exact absurd hlt (Nat.not_lt.mpr (((finish_iff hm hlen).mp ⟨tx, htx⟩).2.1 a))
    · refine iff_of_false (fun htotal => htotal.no_panic (hbuild.trans hpanic)) ?_
      rintro ⟨tx, htx⟩
      rw [hpanic] at htx
      cases htx

/-- The whole balance in two withdrawals. -/
theorem withdraw_build_total_halves : ∃ acc b₀ b, acc.ast.Reachable id ∧
    WithdrawRealTxBuilder.new acc 0 = .ok b₀ ∧
    b₀.addWithdrawals [(1, BitVec.ofNat 256 3), (1, BitVec.ofNat 256 2)] = .ok b ∧ Total id b := by
  obtain ⟨acc, hacc⟩ := exists_funded id one_ne_zero (BitVec.ofNat 256 5)
  have hws : ∀ w ∈ ([(1, BitVec.ofNat 256 3), (1, BitVec.ofNat 256 2)] : List (F × U256)), w.1 = 1 := by
    simp
  obtain ⟨b₀, b, hnew, hadd, rfl⟩ := @withdrawals_run acc
    [(1, BitVec.ofNat 256 3), (1, BitVec.ofNat 256 2)] hacc.nonce 0 (by decide)
  refine ⟨acc, b₀, _, hacc.reachable, hnew, hadd, ?_⟩
  exact (withdraw_build_total id hacc.reachable hnew hadd).mpr
    (.inr (.inr ⟨(hacc.covered_iff hws).mpr (by decide), hacc.known one_ne_zero hws, hacc.keySet⟩))

/-- Two withdrawals of `3` from a balance of `5` panic instead of being refused. -/
theorem withdraw_build_panics : ∃ acc b₀ b, acc.ast.Reachable id ∧
    acc.ast.balance 1 = BitVec.ofNat 256 5 ∧
    WithdrawRealTxBuilder.new acc 0 = .ok b₀ ∧
    b₀.addWithdrawals [(1, BitVec.ofNat 256 3), (1, BitVec.ofNat 256 3)] = .ok b ∧
    5 < requested b.withdrawals 1 ∧ b.build id = .error .panic ∧ ¬ Total id b := by
  obtain ⟨acc, hacc⟩ := exists_funded id one_ne_zero (BitVec.ofNat 256 5)
  have hws : ∀ w ∈ ([(1, BitVec.ofNat 256 3), (1, BitVec.ofNat 256 3)] : List (F × U256)), w.1 = 1 := by
    simp
  have hbalance := hacc.balance
  obtain ⟨b₀, b, hnew, hadd, hb⟩ := @withdrawals_run acc
    [(1, BitVec.ofNat 256 3), (1, BitVec.ofNat 256 3)] hacc.nonce 0 (by decide)
  have haccin : b.accin = acc := by rw [hb]
  have hlist : b.withdrawals = [(1, BitVec.ofNat 256 3), (1, BitVec.ofNat 256 3)] := by rw [hb]
  have hover : ¬ Covered b.accin.ast b.withdrawals := by
    rw [haccin, hlist, hacc.covered_iff hws]
    decide
  have hpanic : b.build id = .error .panic := by
    rcases build_cases id b with ⟨hempty, -⟩ | ⟨w, hw, hlt, -⟩ | ⟨-, -, hbuild⟩
    · rw [hlist] at hempty
      cases hempty
    · rw [hlist] at hw
      have hsame : w = (1, BitVec.ofNat 256 3) := by simpa using hw
      rw [hsame, haccin, hbalance] at hlt
      exact absurd hlt (by decide)
    · rw [hbuild]
      refine (finish_cases id b).resolve_left fun hok => hover ?_
      have hm : ∃ ds, Mirrors id b.accin.ast ds := ⟨_, by rw [haccin]; exact hacc.mirrors⟩
      have hlen : b.withdrawals.length ≤ NOTE_BATCH := by
        rw [hlist]
        exact (show 2 ≤ NOTE_BATCH by decide)
      exact ((finish_iff hm hlen).mp hok).2.1
  have hsum : 5 < requested b.withdrawals 1 := by
    rw [hlist]
    decide
  exact ⟨acc, b₀, b, hacc.reachable, hbalance, hnew, hadd, hsum, hpanic,
    fun htotal => htotal.no_panic hpanic⟩

end Doxa.Client.Withdraw
