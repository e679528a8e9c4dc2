import Doxa.Contract.Queue
import Doxa.Lib.CallStack

/-!
# Tokens that call back

The contract calls a token in the middle of three functions, and has no lock against being
called from there. Here a call of the contract waits on a stack while a token is in
control; the token moves the balance of the contract as it likes, calls any function of the
contract any number of times, and returns or fails. A call that fails puts the state back
to where it began.

`balanceOf` is a `view`, which the compiler calls statically, so that nothing can change
meanwhile; the model lets a token call back from there too, which only adds runs.

The queue is cleared after the last transfer, so a flush inside a flush pays again what the
outer one has paid or is paying, and a withdrawal that is queued during a flush is cleared
unpaid; `withdrawPendingDeposit` writes its status before the transfer and has no such
window. A deposit inside the two balance reads of another one is counted in both. Without
these three, and when a flush finds every asset registered, the accounts stay right at any
depth (`callbacks_accounted`).
-/

namespace Doxa.Contract

open Lib Function

/-! ## The machine -/

/-- The contract, its tokens, and the history of its queue. -/
structure Vault where
  contract : ContractState
  /-- What the contract holds of each token, and all it was ever sent. -/
  balance : Address → ℕ
  received : Address → ℕ
  /-- All withdrawals ever queued; the others are named by their position here. -/
  entries : List PendingWithdrawal
  ids : List ℕ
  /-- The amounts for which a transfer has returned. -/
  paid : List (ℕ × Fin NOTE_BATCH)
  deleted : List ℕ

/-- The local variables of `_depositAndRegister`. -/
structure DepositArgs where
  ctx : Ctx
  note : Bytes32
  recipient : Address
  assetId : U256
  token : Address

/-- Where a call waits: in `balanceOf`, in `transferFrom` and in `balanceOf` again, with the
balance read before and all that had been received then; in the transfer of a withdrawn
deposit; or in one transfer of a flush, with the positions still to come. -/
inductive Frame
  | before (d : DepositArgs)
  | pull (d : DepositArgs) (before recv : ℕ)
  | after (d : DepositArgs) (before recv : ℕ)
  | withdraw
  | flush (id : ℕ) (j : Fin NOTE_BATCH) (todo : List (ℕ × Fin NOTE_BATCH))

abbrev VaultMachine := Machine Vault Frame

/-- A queue slot that was cleared. -/
def PendingWithdrawal.zero : PendingWithdrawal := ⟨0, fun _ => 0, fun _ => 0⟩

def Vault.entry (w : Vault) (id : ℕ) : PendingWithdrawal := w.entries.getD id .zero

/-- `delete _pendingWithdrawals`. -/
def Vault.clear (w : Vault) : Vault :=
  { w with
    contract := { w.contract with pendingWithdrawals := [] }
    ids := []
    deleted := w.deleted ++ w.ids }

/-- The contract moves to `s` and queues `new`. -/
def Vault.queue (w : Vault) (s : ContractState) (new : List PendingWithdrawal) : Vault :=
  { w with
    contract := s
    entries := w.entries ++ new
    ids := w.ids ++ List.range' w.entries.length new.length }

inductive Progress
  | done
  | panic
  | transfer (id : ℕ) (j : Fin NOTE_BATCH) (todo : List (ℕ × Fin NOTE_BATCH))
  deriving DecidableEq

/-- The loop of a flush up to its next transfer. The entry is looked up, and its index
checked, once for all its amounts; the amounts are read from storage one by one. -/
def Vault.advance (w : Vault) : List (ℕ × Fin NOTE_BATCH) → Progress
  | [] => .done
  | (i, j) :: todo =>
    let pw := w.contract.pendingWithdrawals.getD i .zero
    if j.val = 0 ∧ w.contract.pendingWithdrawals.length ≤ i then .panic
    else if pw.assetIds j = 0 ∨ pw.amounts j = 0 then w.advance todo
    else if w.contract.assetMap (pw.assetIds j) = 0 then w.advance todo
    else .transfer (w.ids.getD i 0) j todo

/-- The amounts of `n` entries. -/
def positions (n : ℕ) : List (ℕ × Fin NOTE_BATCH) :=
  List.range n ×ˢ List.finRange NOTE_BATCH

/-- A flush that began in `snapshot` goes on with `todo`. -/
def continueFlush (snapshot w : Vault) (stack : List (Suspended Vault Frame))
    (todo : List (ℕ × Fin NOTE_BATCH)) : VaultMachine :=
  match w.advance todo with
  | .done => ⟨w.clear, stack⟩
  | .panic => ⟨snapshot, stack⟩
  | .transfer id j todo => ⟨w, ⟨snapshot, .flush id j todo⟩ :: stack⟩

variable (env : Env)

/-- A deposit begins. -/
def beginDeposit (m : VaultMachine) (ctx : Ctx) (n : Bytes32) (payer : Address) (a maxAmount : U256) :
    Except Error VaultMachine := do
  whenNotPaused m.world.contract
  checkDeposit n payer payer a maxAmount m.world.contract
  return m.begin m.world (.before ⟨ctx, n, payer, a, m.world.contract.assetMap a⟩)

/-- Somebody calls the contract. -/
def enter (m : VaultMachine) (c : Call) : Except Error VaultMachine :=
  match c.op with
  | .depositAndRegister n a maxAmount _ => beginDeposit m c.ctx n c.ctx.msgSender a maxAmount
  | .depositAndRegisterFor n payer a maxAmount _ => beginDeposit m c.ctx n payer a maxAmount
  | .withdrawPendingDeposit n _ => do
    let s ← withdrawPendingDeposit c.ctx n true m.world.contract
    return m.begin { m.world with contract := s } .withdraw
  | .flushPendingWithdrawals _ =>
    .ok (continueFlush m.world m.world m.stack
      (positions m.world.contract.pendingWithdrawals.length))
  | op => do
    let s ← step env c m.world.contract
    return { m with world := m.world.queue s (recordedBy op) }

/-- The token returns `ok` to the call that waits for it. -/
def resume (m : VaultMachine) (ok : Bool) : Except Error VaultMachine :=
  match m.stack with
  | [] => .error .tokenTransferFailed
  | f :: rest =>
    match f.frame with
    | .before d => .ok ⟨m.world,
        ⟨f.snapshot, .pull d (m.world.balance d.token) (m.world.received d.token)⟩ :: rest⟩
    | .pull d before recv =>
      if ok then .ok ⟨m.world, ⟨f.snapshot, .after d before recv⟩ :: rest⟩ else .ok m.revert
    | .after d before _ =>
      match registerDeposit d.ctx d.note d.recipient d.assetId ⟨BitVec.ofNat 256 before, true,
          BitVec.ofNat 256 (m.world.balance d.token)⟩ m.world.contract with
      | .ok s => .ok ⟨{ m.world with contract := s }, rest⟩
      | .error _ => .ok m.revert
    | .withdraw => if ok then .ok ⟨m.world, rest⟩ else .ok m.revert
    | .flush id j todo =>
      if ok then
        .ok (continueFlush f.snapshot { m.world with paid := m.world.paid ++ [(id, j)] } rest todo)
      else .ok m.revert

inductive VaultAct
  /-- A call from outside, or by the token in control. -/
  | enter (c : Call)
  | resume (ok : Bool)
  | fail
  /-- The token sends to the contract, or takes from it. -/
  | receive (token : Address) (amount : ℕ)
  | lose (token : Address) (amount : ℕ)

def vaultStep (a : VaultAct) (m : VaultMachine) : Except Error VaultMachine :=
  match a with
  | .enter c => enter env m c
  | .resume ok => resume m ok
  | .fail => .ok m.revert
  | .receive t x =>
    if 2 ^ 256 ≤ m.world.balance t + x then .error .overflow
    else .ok { m with world := { m.world with
      balance := update m.world.balance t (m.world.balance t + x)
      received := update m.world.received t (m.world.received t + x) } }
  | .lose t x =>
    .ok { m with world := { m.world with
      balance := update m.world.balance t (m.world.balance t - x) } }

/-- A deployed contract that holds nothing. -/
def Vault.start (s : ContractState) : VaultMachine := ⟨⟨s, fun _ => 0, fun _ => 0, [], [], [], []⟩, []⟩

/-! ## What is claimed, and when -/

/-- All that deposits of one asset are recorded with. -/
def Deposit.recorded (a : U256) (d : Deposit) : ℕ :=
  if d.status ≠ .none ∧ d.assetId = a then d.value.toNat else 0

def recordedOf (a : U256) (deposits : Bytes32 → Deposit) : ℕ := ∑ k, (deposits k).recorded a

/-- The values recorded for deposits of a token. -/
def recordedFor (t : Address) (s : ContractState) : ℕ :=
  ∑ k, if (s.deposits k).status ≠ .none ∧ s.assetMap (s.deposits k).assetId = t then
    (s.deposits k).value.toNat else 0

/-- Nothing is paid twice, nothing is deleted unpaid, and no token is credited beyond what
was received of it. -/
structure Accounted (w : Vault) : Prop where
  once : w.paid.Nodup
  settled : ∀ id ∈ w.deleted, ∀ j, (w.entry id).amounts j ≠ 0 → (id, j) ∈ w.paid
  covered : ∀ t, recordedFor t w.contract ≤ w.received t

def Frame.isFlush : Frame → Bool
  | .flush _ _ _ => true
  | _ => false

/-- The asset of a deposit. -/
def Frame.asset? : Frame → Option U256
  | .before d | .pull d _ _ | .after d _ _ => some d.assetId
  | _ => none

/-- The asset of a deposit between its two balance reads. -/
def Frame.window? : Frame → Option U256
  | .pull d _ _ | .after d _ _ => some d.assetId
  | _ => none

def windows (frames : List Frame) : List U256 := frames.filterMap Frame.window?

/-- No flush begins during a flush, or with an unregistered asset; no withdrawal is queued
during a flush; no deposit begins between the balance reads of one of the same asset. -/
def Careful (m : VaultMachine) : VaultAct → Prop
  | .enter c =>
    match c.op with
    | .flushPendingWithdrawals _ => m.frames.all (fun f => !f.isFlush) = true ∧
        ∀ pw ∈ m.world.contract.pendingWithdrawals, ∀ j, pw.amounts j ≠ 0 →
          m.world.contract.assetMap (pw.assetIds j) ≠ 0
    | .proveBridgeTxBatch data _ => realWithdrawSlots data = [] ∨
        m.frames.all (fun f => !f.isFlush) = true
    | .depositAndRegister _ a _ _ => a ∉ windows m.frames
    | .depositAndRegisterFor _ _ a _ _ => a ∉ windows m.frames
    | _ => True
  | _ => True

end Doxa.Contract
