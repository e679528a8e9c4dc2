import Doxa.Contract.Escrow

/-!
# One queue for all withdrawals

The withdrawals of all proven batches wait in one queue, and one call pays them all and
clears it. Here the tokens refuse some transfers: `accepts` says which transfers go
through, and it does not change. A refused transfer reverts the whole call, and since
assets stay registered and the queue only grows otherwise, no later call gets past it
(`blocked_run`). An amount of an asset that is not registered is skipped, and the entry is
cleared with the others.

So withdrawals leave each other alone in exactly two cases: nothing in the queue is
refused, or nothing in it could be paid anyway; and none is lost in exactly those runs
whose flushes find every queued asset registered (`withdrawals_independent`).
-/

namespace Doxa.Contract

open Lib Function

/-- A token, a recipient and an amount. -/
abbrev Transfer := Address × Address × U256

structure QueueWorld where
  contract : ContractState
  /-- The entries that have left the queue, each with the state in which it was flushed. -/
  gone : List (ContractState × PendingWithdrawal)

section Model

variable (accepts : Transfer → Bool)

/-- The call with the answers of the tokens. -/
def answered (s : ContractState) : Op → Op
  | .withdrawPendingDeposit n _ =>
    let dep := s.deposits n
    .withdrawPendingDeposit n (accepts (s.assetMap dep.assetId, dep.recipient, dep.value))
  | .flushPendingWithdrawals _ =>
    .flushPendingWithdrawals fun k => ((flushTransfers s)[k]?).all accepts
  | op => op

def queueStep (env : Env) (c : Call) (w : QueueWorld) : Except Error QueueWorld := do
  let s ← step env ⟨c.ctx, answered accepts w.contract c.op⟩ w.contract
  return { contract := s
           gone := w.gone ++ (flushedBy w.contract c.op).map fun pw => (w.contract, pw) }

/-- The entry asks for a transfer, and all it asks for are in registered assets and go
through. -/
def WouldSucceed (s : ContractState) (pw : PendingWithdrawal) : Prop :=
  (∃ j, pw.amounts j ≠ 0) ∧ ∀ j, pw.amounts j ≠ 0 → s.assetMap (pw.assetIds j) ≠ 0 ∧
    accepts (s.assetMap (pw.assetIds j), pw.recipient, pw.amounts j) = true

/-- The flush in the state `s` made a transfer for every amount of the entry. -/
def PaidInFull (s : ContractState) (pw : PendingWithdrawal) : Prop :=
  payments s pw = dues s.assetMap pw

/-- Some calls pay the entry at position `i` of the queue. -/
def CanBePaid (env : Env) (w : QueueWorld) (i : ℕ) (pw : PendingWithdrawal) : Prop :=
  ∃ calls s, (run (queueStep accepts env) w calls).gone[w.gone.length + i]? = some (s, pw) ∧
    PaidInFull s pw

/-- No withdrawal blocks another. -/
def NoneBlocked (env : Env) (w : QueueWorld) : Prop :=
  ∀ i pw, w.contract.pendingWithdrawals[i]? = some pw → WouldSucceed accepts w.contract pw →
    CanBePaid accepts env w i pw

/-- What has left the queue was paid. -/
def NoneLost (w : QueueWorld) : Prop := ∀ e ∈ w.gone, PaidInFull e.1 e.2

/-- Every transfer a flush makes goes through. -/
def AllAccepted (s : ContractState) : Prop := ∀ p ∈ flushTransfers s, accepts p = true

/-- A flush that goes through finds the asset of every queued amount registered. -/
def SkipsNothing (w : QueueWorld) (c : Call) : Prop :=
  (∃ ok, c.op = .flushPendingWithdrawals ok) → AllAccepted accepts w.contract →
    ∀ pw ∈ w.contract.pendingWithdrawals, ∀ j, pw.amounts j ≠ 0 →
      w.contract.assetMap (pw.assetIds j) ≠ 0

end Model

/-! ## What a call does to the queue -/

section Calls

variable {env : Env} {s s' : ContractState}

/-- Registered assets stay, and only a flush takes entries from the queue. -/
structure QueueGrows (s s' : ContractState) : Prop where
  kept : ∀ a, s.assetMap a ≠ 0 → s'.assetMap a = s.assetMap a
  zero : s'.assetMap 0 = s.assetMap 0
  grows : s.pendingWithdrawals <+: s'.pendingWithdrawals

theorem SameEscrow.grows (h : SameEscrow s s') : QueueGrows s s' where
  kept _ _ := by rw [h.assetMap]
  zero := by rw [h.assetMap]
  grows := by rw [h.pendingWithdrawals]

theorem registerAsset_grows {ctx : Ctx} {a : U256} {t : Address}
    (h : registerAsset ctx a t s = .ok s') : QueueGrows s s' := by
  obtain ⟨ha, -, hmap, -, rfl⟩ := registerAsset_ok h
  refine ⟨?_, update_of_ne (Ne.symm ha) _ _, List.prefix_refl _⟩
  intro x hx
  refine update_of_ne ?_ _ _
  rintro rfl
  exact hx hmap

theorem step_grows {c : Call} (h : step env c s = .ok s')
    (hnot : ∀ ok, c.op ≠ .flushPendingWithdrawals ok) : QueueGrows s s' := by
  by_cases hinert : c.op.isInert = true
  · exact (step_inert hinert h).grows
  obtain ⟨ctx, op⟩ := c
  cases op with
  | registerAsset a t => exact registerAsset_grows h
  | depositAndRegister n a m r =>
      obtain ⟨-, dep, -, rfl⟩ := step_deposit (.inl rfl) h
      exact ⟨fun _ _ => rfl, rfl, List.prefix_refl _⟩
  | depositAndRegisterFor n p a m r =>
      obtain ⟨-, dep, -, rfl⟩ := step_deposit (.inr ⟨p, rfl⟩) h
      exact ⟨fun _ _ => rfl, rfl, List.prefix_refl _⟩
  | withdrawPendingDeposit n ok =>
      obtain ⟨-, rfl⟩ := withdrawPendingDeposit_ok h
      exact ⟨fun _ _ => rfl, rfl, List.prefix_refl _⟩
  | proveBridgeTxBatch data proof =>
      obtain ⟨hmap, -, hqueue, -⟩ := proveBridge_escrow h
      refine ⟨fun _ _ => by rw [hmap], by rw [hmap], ?_⟩
      rw [hqueue]
      exact List.prefix_append _ _
  | flushPendingWithdrawals ok => exact absurd rfl (hnot ok)
  | _ => exact absurd rfl hinert

/-- What a flush would transfer, it would still transfer later. -/
theorem QueueGrows.transfers (h : QueueGrows s s') {p : Transfer} (hp : p ∈ flushTransfers s) :
    p ∈ flushTransfers s' := by
  obtain ⟨pw, hpw, hp⟩ := List.mem_flatMap.mp hp
  refine List.mem_flatMap.mpr ⟨pw, h.grows.subset hpw, ?_⟩
  obtain ⟨j, hj, hsome⟩ := List.mem_filterMap.mp hp
  refine List.mem_filterMap.mpr ⟨j, hj, ?_⟩
  split at hsome
  · cases hsome
  · rename_i hamt
    split at hsome
    · cases hsome
    · rename_i hreg
      rw [if_neg hamt, h.kept _ hreg, if_neg hreg]
      exact hsome

/-- An entry is paid in full iff the assets of its amounts are registered. -/
theorem paidInFull_iff (hzero : s.assetMap 0 = 0) {pw : PendingWithdrawal} :
    PaidInFull s pw ↔ ∀ j, pw.amounts j ≠ 0 → s.assetMap (pw.assetIds j) ≠ 0 := by
  constructor
  · intro hpaid j hj hnone
    -- an unregistered amount is due in the token `0`, and no transfer is in that token
    have hdue : ((0 : Address), pw.recipient, pw.amounts j) ∈ payments s pw := by
      rw [show payments s pw = dues s.assetMap pw from hpaid]
      refine List.mem_filterMap.mpr ⟨j, List.mem_finRange j, ?_⟩
      rw [if_neg hj, hnone]
    obtain ⟨i, -, hi⟩ := List.mem_filterMap.mp hdue
    split at hi
    · cases hi
    · split at hi
      · cases hi
      · rename_i hreg
        exact hreg (congrArg Prod.fst (Option.some.inj hi))
  · intro hreg
    refine List.filterMap_congr fun j _ => ?_
    by_cases hamt : pw.amounts j = 0
    · simp [hamt]
    · have hasset := hreg j hamt
      have hne : pw.assetIds j ≠ 0 := by
        intro heq
        rw [heq] at hasset
        exact hasset hzero
      rw [if_neg (not_or.mpr ⟨hne, hamt⟩), if_neg hasset, if_neg hamt]

end Calls

/-! ## Runs -/

section Runs

variable {accepts : Transfer → Bool} {env : Env} {w w' : QueueWorld} {c : Call}

theorem flush_answers (s : ContractState) :
    (∀ k, k < (flushTransfers s).length → ((flushTransfers s)[k]?).all accepts = true) ↔
      AllAccepted accepts s := by
  constructor
  · intro h p hp
    obtain ⟨k, hk, rfl⟩ := List.getElem_of_mem hp
    have := h k hk
    rwa [List.getElem?_eq_getElem hk] at this
  · intro h k hk
    rw [List.getElem?_eq_getElem hk]
    exact h _ (List.getElem_mem hk)

/-- A flush goes through iff every transfer does. -/
theorem queueStep_flush {ctx : Ctx} {ok : ℕ → Bool} :
    queueStep accepts env ⟨ctx, .flushPendingWithdrawals ok⟩ w = .ok w' ↔
      AllAccepted accepts w.contract ∧
        w' = { contract := { w.contract with pendingWithdrawals := [] }
               gone := w.gone ++ w.contract.pendingWithdrawals.map fun pw => (w.contract, pw) } := by
  simp only [queueStep, answered, step, flushedBy, bind_eq_ok, pure_eq_ok,
    flushPendingWithdrawals_ok_iff, flush_answers]
  constructor
  · rintro ⟨_, ⟨hall, rfl⟩, rfl⟩
    exact ⟨hall, rfl⟩
  · rintro ⟨hall, rfl⟩
    exact ⟨_, ⟨hall, rfl⟩, rfl⟩

/-- A step that is not a flush. -/
theorem queueStep_other (h : queueStep accepts env c w = .ok w')
    (hnot : ∀ ok, c.op ≠ .flushPendingWithdrawals ok) :
    QueueGrows w.contract w'.contract ∧ w'.gone = w.gone := by
  simp only [queueStep, bind_eq_ok, pure_eq_ok] at h
  obtain ⟨s, hs, rfl⟩ := h
  obtain ⟨ctx, op⟩ := c
  have hanswered : ∀ ok, answered accepts w.contract op ≠ .flushPendingWithdrawals ok := by
    intro ok
    cases op with
    | flushPendingWithdrawals ok' => exact absurd rfl (hnot ok')
    | _ => exact nofun
  refine ⟨step_grows hs hanswered, ?_⟩
  cases op with
  | flushPendingWithdrawals ok' => exact absurd rfl (hnot ok')
  | _ => exact List.append_nil _

/-- A refused transfer stops every flush, now and later. -/
theorem blocked_run {p : Transfer} (hp : p ∈ flushTransfers w.contract)
    (hrefused : accepts p = false) (calls : List Call) :
    p ∈ flushTransfers (run (queueStep accepts env) w calls).contract ∧
      (run (queueStep accepts env) w calls).gone = w.gone := by
  refine run_inv calls (fun t : QueueWorld => p ∈ flushTransfers t.contract ∧ t.gone = w.gone)
    ⟨hp, rfl⟩ ?_
  rintro ⟨ctx, op⟩ - t t' ⟨hblocked, hgone⟩ hstep
  cases op with
  | flushPendingWithdrawals ok =>
      have hok := (queueStep_flush.mp hstep).1 p hblocked
      rw [hrefused] at hok
      cases hok
  | _ =>
      obtain ⟨hgrows, hsame⟩ := queueStep_other hstep nofun
      exact ⟨hgrows.transfers hblocked, hsame.trans hgone⟩

/-- No asset has the id `0`. -/
theorem queueStep_zero (h : queueStep accepts env c w = .ok w') (hzero : w.contract.assetMap 0 = 0) :
    w'.contract.assetMap 0 = 0 := by
  by_cases hflush : ∃ ok, c.op = .flushPendingWithdrawals ok
  · obtain ⟨ctx, op⟩ := c
    obtain ⟨ok, rfl⟩ := hflush
    obtain ⟨-, rfl⟩ := queueStep_flush.mp h
    exact hzero
  · have hgrows := (queueStep_other h fun ok hok => hflush ⟨ok, hok⟩).1
    exact hgrows.zero.trans hzero

variable (accepts) in
theorem zero_of_run {s₀ : ContractState} (h₀ : Deployed env s₀) (calls : List Call) :
    (run (queueStep accepts env) ⟨s₀, []⟩ calls).contract.assetMap 0 = 0 :=
  run_inv calls (fun t : QueueWorld => t.contract.assetMap 0 = 0) (congrFun (deployed_registry h₀).1 0)
    fun _ _ _ _ hI hstep => queueStep_zero hstep hI

/-- Entries can be paid side by side iff nothing is refused or nothing could be paid. -/
theorem noneBlocked_iff (hzero : w.contract.assetMap 0 = 0) :
    NoneBlocked accepts env w ↔ AllAccepted accepts w.contract ∨
      ∀ pw ∈ w.contract.pendingWithdrawals, ¬ WouldSucceed accepts w.contract pw := by
  constructor
  · intro hnone
    by_contra hcon
    obtain ⟨hrefused, hsome⟩ := not_or.mp hcon
    unfold AllAccepted at hrefused
    push Not at hrefused hsome
    obtain ⟨p, hp, hno⟩ := hrefused
    obtain ⟨pw, hpw, hwould⟩ := hsome
    obtain ⟨i, hi⟩ := List.mem_iff_getElem?.mp hpw
    obtain ⟨calls, s, hgone, -⟩ := hnone i pw hi hwould
    rw [(blocked_run hp (Bool.not_eq_true _ ▸ hno) calls).2,
      List.getElem?_eq_none (Nat.le_add_right _ _)] at hgone
    cases hgone
  · rintro (hall | hnone) i pw hi hwould
    · refine ⟨[⟨⟨0, 0⟩, .flushPendingWithdrawals fun _ => true⟩], w.contract, ?_,
        (paidInFull_iff hzero).mpr fun j hj => (hwould.2 j hj).1⟩
      rw [run_cons, run_nil, attempt_ok (queueStep_flush.mpr ⟨hall, rfl⟩), List.getElem?_append_right (by omega),
        Nat.add_sub_cancel_left, List.getElem?_map, hi, Option.map_some]
    · exact absurd hwould (hnone pw (List.mem_of_getElem? hi))

/-- One step loses nothing iff it skips nothing. -/
theorem noneLost_attempt (hzero : w.contract.assetMap 0 = 0) :
    NoneLost (attempt (queueStep accepts env) w c) ↔ NoneLost w ∧ SkipsNothing accepts w c := by
  obtain ⟨ctx, op⟩ := c
  by_cases hflush : ∃ ok, op = .flushPendingWithdrawals ok
  · obtain ⟨ok, rfl⟩ := hflush
    by_cases hall : AllAccepted accepts w.contract
    · rw [attempt_ok (queueStep_flush.mpr ⟨hall, rfl⟩)]
      simp only [NoneLost, List.mem_append, List.mem_map]
      constructor
      · intro h
        refine ⟨fun e he => h e (.inl he), fun _ _ pw hpw => ?_⟩
        exact (paidInFull_iff hzero).mp (h _ (.inr ⟨pw, hpw, rfl⟩))
      · rintro ⟨hbefore, hskips⟩ e (he | ⟨pw, hpw, rfl⟩)
        · exact hbefore e he
        · exact (paidInFull_iff hzero).mpr (hskips ⟨ok, rfl⟩ hall pw hpw)
    · have hsame : attempt (queueStep accepts env) w ⟨ctx, .flushPendingWithdrawals ok⟩ = w := by
        unfold attempt
        split
        · rename_i w' hw'
          exact absurd (queueStep_flush.mp hw').1 hall
        · rfl
      rw [hsame]
      exact ⟨fun h => ⟨h, fun _ hacc => absurd hacc hall⟩, And.left⟩
  · have hskips : SkipsNothing accepts w ⟨ctx, op⟩ := fun h => absurd h hflush
    unfold attempt
    split
    · rename_i w' hw'
      rw [NoneLost, (queueStep_other hw' fun ok hok => hflush ⟨ok, hok⟩).2]
      exact ⟨fun h => ⟨h, hskips⟩, And.left⟩
    · exact ⟨fun h => ⟨h, hskips⟩, And.left⟩

theorem noneLost_run (calls : List Call) (hzero : w.contract.assetMap 0 = 0) :
    NoneLost (run (queueStep accepts env) w calls) ↔
      NoneLost w ∧ Along (queueStep accepts env) (SkipsNothing accepts) w calls := by
  induction calls generalizing w with
  | nil => exact ⟨fun h => ⟨h, trivial⟩, And.left⟩
  | cons c calls ih =>
      have hzero' : (attempt (queueStep accepts env) w c).contract.assetMap 0 = 0 := by
        unfold attempt
        split
        · rename_i w' hw'
          exact queueStep_zero hw' hzero
        · exact hzero
      rw [run_cons, ih hzero', noneLost_attempt hzero, Along, and_assoc]

end Runs

/-- In the state a run reaches, no withdrawal blocks another and none has been lost, exactly
when nothing in the queue is refused, or nothing in it could be paid anyway, and every
flush of the run found the asset of every queued amount registered. -/
theorem withdrawals_independent (env : Env) (s₀ : ContractState) (h₀ : Deployed env s₀)
    (accepts : Transfer → Bool) (calls : List Call) (w : QueueWorld)
    (hw : run (queueStep accepts env) ⟨s₀, []⟩ calls = w) :
    (NoneBlocked accepts env w ∧ NoneLost w) ↔
      (AllAccepted accepts w.contract ∨
        ∀ pw ∈ w.contract.pendingWithdrawals, ¬ WouldSucceed accepts w.contract pw) ∧
      Along (queueStep accepts env) (SkipsNothing accepts) ⟨s₀, []⟩ calls := by
  have hzero := zero_of_run accepts h₀ calls
  rw [hw] at hzero
  refine and_congr (noneBlocked_iff hzero) ?_
  rw [← hw, noneLost_run calls (congrFun (deployed_registry h₀).1 0)]
  exact ⟨And.right, fun h => ⟨nofun, h⟩⟩

/-! ## A refused recipient, and an asset that is not registered -/

/-- A bridge batch with two real withdraw slots of five units of asset `1`, the first for
account `7` and the second for the zero address, and no deposit. -/
def withdrawBatch : Bytes where
  length := D_SECTION_OFF + BRIDGE_TX_HALF_SIZE * D_SLOT_SIZE
  byte := fun i =>
    let slot := (i - 96) / W_SLOT_SIZE
    let off := (i - 96) % W_SLOT_SIZE
    if i < 96 ∨ 2 ≤ slot then 0
    else if off = 3 then 1
    else if off = W_ACCIN_NULL_OFF + 3 then BitVec.ofNat 8 (16 + slot)
    else if off = W_ASSET_ID_OFF + 3 then 1
    else if off = W_AMT_OFF + 3 then 5
    else if off = W_ETH_ADDR_OFF + 3 ∧ slot = 0 then 7
    else 0

/-- The batch is submitted and proven. -/
def withdrawCalls : List Call :=
  [⟨⟨1, 0⟩, .submitBridgeTxBatch withdrawBatch⟩,
    ⟨⟨2, 0⟩, .proveBridgeTxBatch withdrawBatch sampleProof⟩]

/-- A flush by anybody. -/
def flushCall : Call := ⟨⟨2, 0⟩, .flushPendingWithdrawals fun _ => true⟩

section Sample

theorem withdrawBatch_empty {off : ℕ} (h : 96 + 2 * W_SLOT_SIZE ≤ off) :
    cdBool withdrawBatch off = false := by
  refine cdBool_zero fun k hk => if_pos (.inr ?_)
  rw [Nat.le_div_iff_mul_le (by decide)]
  omega

theorem withdrawBatch_deposits : ∀ i, i < BRIDGE_TX_HALF_SIZE →
    cdBool withdrawBatch (dSlotOff i) = false := fun i _ => by
  refine withdrawBatch_empty ?_
  simp only [dSlotOff, D_SECTION_OFF, W_SLOT_SIZE, BRIDGE_TX_HALF_SIZE]
  omega

theorem withdrawBatch_slots : realWithdrawSlots withdrawBatch = [0, 1] := by
  have hfirst : cdBool withdrawBatch (wSlotOff 0) = true := by decide +kernel
  have hsecond : cdBool withdrawBatch (wSlotOff 1) = true := by decide +kernel
  have hrest : ∀ i, 2 ≤ i → cdBool withdrawBatch (wSlotOff i) = false := fun i hi =>
    withdrawBatch_empty (Nat.add_le_add_left (Nat.mul_le_mul_right _ hi) _)
  exact filter_firstTwo hfirst hsecond hrest

/-- A fresh pool with some assets. -/
def poolWith (assetMap : U256 → Address) (tokenToAssetId : Address → U256) : ContractState :=
  { sampleState with assetMap := assetMap, tokenToAssetId := tokenToAssetId }

variable (m : U256 → Address) (k : Address → U256)

theorem withdrawBatch_submit :
    step sampleEnv ⟨⟨1, 0⟩, .submitBridgeTxBatch withdrawBatch⟩ (poolWith m k) =
      .ok (waiting (poolWith m k)) := by
  refine submit_waiting ?_ rfl rfl ?_ ?_ ⟨rfl, rfl⟩
  · decide +kernel
  · exact (by decide +kernel : sampleState.imt.confirmedRoots 0 = true)
  · exact (by decide +kernel : sampleState.mainPoolConfigRoot = 0)

theorem withdrawBatch_prove :
    ∃ s, step sampleEnv ⟨⟨2, 0⟩, .proveBridgeTxBatch withdrawBatch sampleProof⟩
      (waiting (poolWith m k)) = .ok s := by
  refine proveBridge_isOk rfl (waiting_pending _) rfl ?_ ?_ ?_
  · intro i hi
    refine checkBridgeSlot_isOk (fun _ => rfl) fun hreal => ?_
    rw [withdrawBatch_deposits i hi] at hreal
    cases hreal
  · intro i hi hreal
    rw [withdrawBatch_deposits i hi] at hreal
    cases hreal
  · exact (by decide +kernel : sampleState.imt.leafCount < 2 ^ sampleState.treeDepth)

/-- The two withdrawals are queued. -/
theorem withdrawBatch_queued (accepts : Transfer → Bool) :
    ∃ s, run (queueStep accepts sampleEnv) ⟨poolWith m k, []⟩ withdrawCalls = ⟨s, []⟩ ∧
      s.assetMap = m ∧
      s.pendingWithdrawals = [readWithdrawal withdrawBatch 0, readWithdrawal withdrawBatch 1] := by
  obtain ⟨s, hs⟩ := withdrawBatch_prove m k
  obtain ⟨hmap, -, hqueue, -⟩ := proveBridge_escrow hs
  rw [withdrawBatch_slots] at hqueue
  refine ⟨s, ?_, hmap, hqueue⟩
  have hsubmit : queueStep accepts sampleEnv ⟨⟨1, 0⟩, .submitBridgeTxBatch withdrawBatch⟩
      ⟨poolWith m k, []⟩ = .ok ⟨waiting (poolWith m k), []⟩ := by
    simp only [queueStep, answered, withdrawBatch_submit]
    rfl
  have hprove : queueStep accepts sampleEnv
      ⟨⟨2, 0⟩, .proveBridgeTxBatch withdrawBatch sampleProof⟩ ⟨waiting (poolWith m k), []⟩ =
        .ok ⟨s, []⟩ := by
    simp only [queueStep, answered, hs]
    rfl
  rw [withdrawCalls, run_cons, attempt_ok hsubmit, run_cons, attempt_ok hprove, run_nil]

theorem registerSample (accepts : Transfer → Bool) :
    queueStep accepts sampleEnv ⟨⟨1, 0⟩, .registerAsset 1 9⟩ ⟨sampleState, []⟩ =
      .ok ⟨poolWith (update (fun _ => 0) 1 9) (update (fun _ => 0) 9 1), []⟩ := rfl

/-- Tokens that refuse the zero address, as usual. -/
def refuseZero (p : Transfer) : Bool := p.2.1 ≠ 0

theorem payments_congr {s : ContractState} (h : s.assetMap = m) (pw : PendingWithdrawal) :
    payments s pw = payments (poolWith m fun _ => 0) pw := by
  unfold payments
  rw [h]
  rfl

/-- A withdrawal to the zero address blocks another one, and where its asset is not
registered a flush drops both. -/
theorem withdrawals_interfere : Deployed sampleEnv sampleState ∧
    ¬ NoneBlocked refuseZero sampleEnv (run (queueStep refuseZero sampleEnv) ⟨sampleState, []⟩
      (⟨⟨1, 0⟩, .registerAsset 1 9⟩ :: withdrawCalls)) ∧
    ¬ NoneLost (run (queueStep refuseZero sampleEnv) ⟨sampleState, []⟩
      (withdrawCalls ++ [flushCall])) := by
  refine ⟨sampleState_deployed, ?_, ?_⟩
  · obtain ⟨s, hrun, hmap, hqueue⟩ := withdrawBatch_queued (update (fun _ => 0) 1 9)
      (update (fun _ => 0) 9 1) refuseZero
    rw [run_cons, attempt_ok (registerSample refuseZero), hrun, noneBlocked_iff (by rw [hmap]; decide +kernel)]
    rintro (hall | hnone)
    · have hrefused : ((9, 0, 5) : Transfer) ∈ flushTransfers s := by
        refine List.mem_flatMap.mpr ⟨readWithdrawal withdrawBatch 1, by simp [hqueue], ?_⟩
        rw [payments_congr _ hmap]
        decide +kernel
      exact absurd (hall _ hrefused) (by decide)
    · refine hnone (readWithdrawal withdrawBatch 0) (by simp [hqueue]) ?_
      unfold WouldSucceed
      rw [hmap]
      decide +kernel
  · obtain ⟨s, hrun, hmap, hqueue⟩ := withdrawBatch_queued (fun _ => 0) (fun _ => 0) refuseZero
    have hstart : sampleState = poolWith (fun _ => 0) fun _ => 0 := rfl
    rw [hstart, run_append, hrun, run_cons, run_nil, noneLost_attempt (congrFun hmap 0)]
    rintro ⟨-, hskips⟩
    have hall : AllAccepted refuseZero s := by
      intro p hp
      obtain ⟨pw, -, hp⟩ := List.mem_flatMap.mp hp
      obtain ⟨j, -, hj⟩ := List.mem_filterMap.mp hp
      simp [hmap] at hj
    refine hskips ⟨_, rfl⟩ hall (readWithdrawal withdrawBatch 0) (by simp [hqueue])
      ⟨0, by decide⟩ ?_ (congrFun hmap _)
    decide +kernel

/-- Tokens that accept every transfer. -/
def acceptAll (_ : Transfer) : Bool := true

/-- A flush pays both withdrawals to tokens that accept them. -/
theorem withdrawals_independent_sample : Deployed sampleEnv sampleState ∧
    NoneLost (run (queueStep acceptAll sampleEnv) ⟨sampleState, []⟩
      (⟨⟨1, 0⟩, .registerAsset 1 9⟩ :: withdrawCalls ++ [flushCall])) := by
  refine ⟨sampleState_deployed, ?_⟩
  refine ((withdrawals_independent sampleEnv sampleState sampleState_deployed acceptAll
    (⟨⟨1, 0⟩, .registerAsset 1 9⟩ :: withdrawCalls ++ [flushCall]) _ rfl).mpr
      ⟨.inl fun _ _ => rfl, along_append.mpr ⟨⟨nofun, nofun, nofun, trivial⟩, ?_, trivial⟩⟩).2
  rw [run_cons, attempt_ok (registerSample acceptAll)]
  obtain ⟨s, hrun, hmap, hqueue⟩ := withdrawBatch_queued (update (fun _ => 0) 1 9)
    (update (fun _ => 0) 9 1) acceptAll
  rw [hrun]
  intro _ _ pw hpw
  simp only [hmap]
  simp only [hqueue, List.mem_cons, List.not_mem_nil, or_false] at hpw
  rcases hpw with rfl | rfl
  · decide +kernel
  · decide +kernel

end Sample

end Doxa.Contract
