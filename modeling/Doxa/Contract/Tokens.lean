import Doxa.Contract.Deposits
import Doxa.Lib.TokenLedger
import Mathlib.Data.FinEnum

/-!
# The contract among exact tokens

The contract together with the tokens it calls, for tokens whose transfers move exactly the
requested amount, succeed whenever the balance of the payer suffices and never call back.
`answer` replaces what a call says about the tokens by what they do: the balances a deposit
reads, and whether each transfer succeeds. The flag a deposit carries says whether the
allowance of the payer suffices.

Outside the contract tokens move freely (`WorldOp.move`), only those of the contract do
not. A token is issued and burned by a transfer from or to the zero address, which holds
what is not issued; the supply of a token is less than `2 ^ 256`.

Beside the state stand the withdrawals recorded by all proven batches, those a flush has
taken from the queue, and the transfers made by flushes.
-/

namespace Doxa.Contract

open Lib Function

abbrev TokenBalances := Balances Address Address

structure World where
  contract : ContractState
  balance : TokenBalances
  recorded : List PendingWithdrawal
  flushed : List PendingWithdrawal
  paid : List (Address × Address × U256)

inductive WorldOp
  | call (ctx : Ctx) (op : Op)
  | move (token src dst : Address) (amt : ℕ)

/-- The transfers with their amounts as numbers. -/
def asPayments (ps : List (Address × Address × U256)) : List (Address × Address × ℕ) :=
  ps.map fun p => (p.1, p.2.1, p.2.2.toNat)

/-- The transfers a flush makes. -/
def flushTransfers (s : ContractState) : List (Address × Address × U256) :=
  s.pendingWithdrawals.flatMap (payments s)

section Answers

variable (self : Address)

/-- `transferFrom(payer, self, maxAmount)` between two reads of the balance. -/
def pull (b : TokenBalances) (token payer : Address) (maxAmount : U256) (allowed : Bool) :
    TokenBalances × TokenReply :=
  if allowed = true ∧ maxAmount.toNat ≤ b token payer then
    (Lib.move b token payer self maxAmount.toNat,
      ⟨BitVec.ofNat 256 (b token self), true,
        BitVec.ofNat 256 (Lib.move b token payer self maxAmount.toNat token self)⟩)
  else (b, ⟨BitVec.ofNat 256 (b token self), false, BitVec.ofNat 256 (b token self)⟩)

/-- What the tokens make of a call: the call with their replies, and the balances after
it. -/
def answer (b : TokenBalances) (s : ContractState) (ctx : Ctx) : Op → Op × TokenBalances
  | .depositAndRegister n a m r =>
    let pulled := pull self b (s.assetMap a) ctx.msgSender m r.ok
    (.depositAndRegister n a m pulled.2, pulled.1)
  | .depositAndRegisterFor n payer a m r =>
    let pulled := pull self b (s.assetMap a) payer m r.ok
    (.depositAndRegisterFor n payer a m pulled.2, pulled.1)
  | .withdrawPendingDeposit n _ =>
    let dep := s.deposits n
    let token := s.assetMap dep.assetId
    (.withdrawPendingDeposit n (decide (dep.value.toNat ≤ b token self)),
      Lib.move b token self dep.recipient dep.value.toNat)
  | .flushPendingWithdrawals _ =>
    let ps := asPayments (flushTransfers s)
    (.flushPendingWithdrawals fun k => (payAll self (ps.take (k + 1)) b).isSome,
      (payAll self ps b).getD b)
  | op => (op, b)

/-- The withdrawals a call records. -/
def recordedBy : Op → List PendingWithdrawal
  | .proveBridgeTxBatch data _ => (realWithdrawSlots data).map (readWithdrawal data)
  | _ => []

/-- The withdrawals a call takes from the queue. -/
def flushedBy (s : ContractState) : Op → List PendingWithdrawal
  | .flushPendingWithdrawals _ => s.pendingWithdrawals
  | _ => []

def worldStep (env : Env) (o : WorldOp) (w : World) : Except Error World :=
  match o with
  | .call ctx op => do
    let s ← step env ⟨ctx, (answer self w.balance w.contract ctx op).1⟩ w.contract
    return { contract := s
             balance := (answer self w.balance w.contract ctx op).2
             recorded := w.recorded ++ recordedBy op
             flushed := w.flushed ++ flushedBy w.contract op
             paid := w.paid ++ (flushedBy w.contract op).flatMap (payments w.contract) }
  | .move token src dst amt =>
    if src = self ∨ w.balance token src < amt then .error .tokenTransferFailed
    else .ok { w with balance := Lib.move w.balance token src dst amt }

end Answers

/-! ## What a call does to assets, deposits and the queue -/

section Calls

variable {env : Env} {s s' : ContractState} {ctx : Ctx}

/-- The part of the state the escrow depends on is the same. -/
structure SameEscrow (s s' : ContractState) : Prop where
  assetMap : s'.assetMap = s.assetMap
  tokenToAssetId : s'.tokenToAssetId = s.tokenToAssetId
  deposits : s'.deposits = s.deposits
  pendingWithdrawals : s'.pendingWithdrawals = s.pendingWithdrawals

/-- The calls that neither register an asset nor touch a deposit or the queue. -/
def Op.isInert : Op → Bool
  | .setTxVerifier _ | .setBridgeTxVerifier _ | .setOperator _ | .setPaused _
  | .setWithdrawalDelay _ | .assignSubpoolOwner _ _ | .updateSubpoolRoot _ _ _
  | .submitTransactionBatch _ | .proveTransactionBatch _ _ | .submitBridgeTxBatch _ => true
  | _ => false

theorem step_inert {c : Call} (hc : c.op.isInert = true) (h : step env c s = .ok s') :
    SameEscrow s s' := by
  obtain ⟨ctx, op⟩ := c
  cases op with
  | setTxVerifier v =>
      simp only [step, setTxVerifier, setVerifier, onlyOperator, revertIf_bind_eq_ok,
        pure_eq_ok] at h
      obtain ⟨-, -, rfl⟩ := h
      exact ⟨rfl, rfl, rfl, rfl⟩
  | setBridgeTxVerifier v =>
      simp only [step, setBridgeTxVerifier, setVerifier, onlyOperator, revertIf_bind_eq_ok,
        pure_eq_ok] at h
      obtain ⟨-, -, rfl⟩ := h
      exact ⟨rfl, rfl, rfl, rfl⟩
  | setOperator o =>
      simp only [step, setOperator, onlyOperator, revertIf_bind_eq_ok, pure_eq_ok] at h
      obtain ⟨-, -, rfl⟩ := h
      exact ⟨rfl, rfl, rfl, rfl⟩
  | setPaused b =>
      simp only [step, setPaused, onlyOperator, revertIf_bind_eq_ok, pure_eq_ok] at h
      obtain ⟨-, rfl⟩ := h
      exact ⟨rfl, rfl, rfl, rfl⟩
  | setWithdrawalDelay d =>
      simp only [step, setWithdrawalDelay, onlyOperator, revertIf_bind_eq_ok, pure_eq_ok] at h
      obtain ⟨-, rfl⟩ := h
      exact ⟨rfl, rfl, rfl, rfl⟩
  | assignSubpoolOwner i o =>
      simp only [step, assignSubpoolOwner, onlyOperator, revertIf_bind_eq_ok, pure_eq_ok] at h
      obtain ⟨-, -, -, -, rfl⟩ := h
      exact ⟨rfl, rfl, rfl, rfl⟩
  | updateSubpoolRoot i r sib =>
      simp only [step, updateSubpoolRoot, whenNotPaused, revertIf_bind_eq_ok, pure_eq_ok] at h
      obtain ⟨-, -, -, -, -, rfl⟩ := h
      exact ⟨rfl, rfl, rfl, rfl⟩
  | submitTransactionBatch b =>
      obtain ⟨-, -, -, rfl⟩ := submitBatch_ok h
      exact ⟨rfl, rfl, rfl, rfl⟩
  | submitBridgeTxBatch b =>
      obtain ⟨-, -, -, rfl⟩ := submitBatch_ok h
      exact ⟨rfl, rfl, rfl, rfl⟩
  | proveTransactionBatch b p =>
      simp only [step, proveTransactionBatch, bind_eq_ok] at h
      obtain ⟨_, -, _, -, _, -, h⟩ := h
      obtain ⟨imt', -, rfl⟩ := appendBatchRoot_ok h
      exact ⟨rfl, rfl, rfl, rfl⟩
  | _ => cases hc

theorem registerAsset_ok {a : U256} {t : Address} (h : registerAsset ctx a t s = .ok s') :
    a ≠ 0 ∧ t ≠ 0 ∧ s.assetMap a = 0 ∧ s.tokenToAssetId t = 0 ∧
      s' = { s with
        assetMap := update s.assetMap a t
        tokenToAssetId := update s.tokenToAssetId t a } := by
  simp only [registerAsset, onlyOperator, revertIf_bind_eq_ok, not_not, pure_eq_ok] at h
  obtain ⟨-, ha, ht, hmap, htok, rfl⟩ := h
  exact ⟨ha, ht, hmap, htok, rfl⟩

/-- A deposit that went through: what it checked and what it recorded. -/
theorem depositInternal_recorded {n : Bytes32} {payer recipient : Address} {a m : U256}
    {r : TokenReply} (h : depositAndRegisterInternal ctx n payer recipient a m r s = .ok s') :
    (s.deposits n).status = .none ∧ m ≠ 0 ∧ s.assetMap a ≠ 0 ∧ r.ok = true ∧
      r.balanceBefore < r.balanceAfter ∧
      s' = { s with
        deposits := update s.deposits n
          ⟨r.balanceAfter - r.balanceBefore, recipient, .pending, ctx.blockNumber, a⟩ } := by
  simp only [depositAndRegisterInternal, checkDeposit, registerDeposit, bind_eq_ok,
    revertIf_eq_ok, not_not, pure_eq_ok, Bool.not_eq_false] at h
  obtain ⟨_, ⟨_, hnone, _, -, _, hm, hasset⟩, _, hok, _, hlt, rfl⟩ := h
  exact ⟨hnone, hm, hasset, hok, BitVec.not_le.mp hlt, rfl⟩

/-- A withdrawal that went through. -/
theorem withdrawPendingDeposit_transfer {n : Bytes32} {ok : Bool}
    (h : withdrawPendingDeposit ctx n ok s = .ok s') :
    (s.deposits n).status = .pending ∧ ctx.msgSender = (s.deposits n).recipient ∧ ok = true ∧
      s' = { s with deposits := update s.deposits n { s.deposits n with status := .withdrawn } } := by
  simp only [withdrawPendingDeposit, whenNotPaused, revertIf_bind_eq_ok, not_not, pure_eq_ok,
    Bool.not_eq_false] at h
  obtain ⟨-, -, hpending, hsender, -, -, hok, rfl⟩ := h
  exact ⟨hpending, hsender, hok, rfl⟩

theorem flushPendingWithdrawals_ok_iff {ok : ℕ → Bool} :
    flushPendingWithdrawals ok s = .ok s' ↔
      (∀ k, k < (flushTransfers s).length → ok k = true) ∧ s' = { s with pendingWithdrawals := [] } := by
  simp only [flushPendingWithdrawals, bind_eq_ok, pure_eq_ok]
  constructor
  · rintro ⟨_, hloop, rfl⟩
    obtain ⟨-, hall⟩ := tryLoop_check (fun _ _ _ _ => rfl) hloop
    exact ⟨fun k hk => Bool.not_eq_false _ ▸ revertIf_eq_ok.mp (hall k hk), rfl⟩
  · rintro ⟨hall, rfl⟩
    have hloop : ∃ u : Unit, tryLoop
        (fun k _ => revertIf (ok k = false) Error.tokenTransferFailed)
        (s.pendingWithdrawals.flatMap (payments s)).length () = .ok u ∧ True := by
      refine tryLoop_ok (fun _ _ => True) trivial fun k hk u _ => ⟨(), ?_, trivial⟩
      rw [revertIf_eq_ok, hall k hk]
      decide
    obtain ⟨u, hu, -⟩ := hloop
    exact ⟨u, hu, rfl⟩

/-- The queue after the withdraw slots of a batch. -/
theorem withdrawLoop_queue (data : Bytes) (s : ContractState) (n : ℕ) :
    (forLoop (markWithdrawSlot data) n s).pendingWithdrawals = s.pendingWithdrawals ++
      ((List.range n).filter fun i => cdBool data (wSlotOff i)).map (readWithdrawal data) := by
  induction n with
  | zero => simp
  | succ n ih =>
      rw [forLoop_succ, List.range_succ, List.filter_append, List.map_append, ← List.append_assoc,
        ← ih]
      unfold markWithdrawSlot
      split
      · rename_i hpad
        simp [hpad]
      · rename_i hreal
        rw [Bool.not_eq_false] at hreal
        simp [hreal]

/-- A proven batch queues its withdrawals and validates the deposits it names, which were
pending. -/
theorem proveBridge_escrow {data : Bytes} {proof : Proof}
    (h : proveBridgeTxBatch env data proof s = .ok s') :
    s'.assetMap = s.assetMap ∧ s'.tokenToAssetId = s.tokenToAssetId ∧
      s'.pendingWithdrawals =
        s.pendingWithdrawals ++ (realWithdrawSlots data).map (readWithdrawal data) ∧
      ∀ k, s'.deposits k = s.deposits k ∨
        (s.deposits k).status = .pending ∧ s'.deposits k = (s.deposits k).validate := by
  obtain ⟨htouched, huntouched⟩ := proveBridge_deposits h
  obtain ⟨-, -, t, imt', hloop, -, rfl⟩ := proveBridgeTxBatch_parts h
  obtain ⟨wnull, queue, hw, -⟩ :=
    withdrawLoop_spec data (confirm .bridge (piCommitment env data) s) BRIDGE_TX_HALF_SIZE
  have hqueue := withdrawLoop_queue data (confirm .bridge (piCommitment env data) s)
    BRIDGE_TX_HALF_SIZE
  rw [hw] at hloop hqueue
  obtain ⟨dnull, deposits, rfl⟩ := hloop.frame
  refine ⟨rfl, rfl, hqueue, fun k => ?_⟩
  by_cases hkey : ∃ i, i < BRIDGE_TX_HALF_SIZE ∧ cdBool data (dSlotOff i) = true ∧
      noteKey data i = k
  · obtain ⟨i, hi, hreal, rfl⟩ := hkey
    obtain ⟨hpending, -, heq⟩ := htouched i hi hreal
    exact .inr ⟨hpending, heq⟩
  · exact .inl (huntouched k fun i hi hreal hk => hkey ⟨i, hi, hreal, hk⟩)

end Calls

end Doxa.Contract
