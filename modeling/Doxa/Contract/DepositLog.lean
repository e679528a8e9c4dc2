import Doxa.Contract.Deposits
import Doxa.Contract.Reentrancy

/-!
# The events of deposits

A transaction emits its events one by one, and a call that gives up takes back what it and the
calls inside it have emitted. `Trace` keeps the events of the history with, for each waiting
call, those before it began and the one it emits when it returns: `withdrawPendingDeposit`
writes its status before the transfer and emits after it.

`LogGood` reads the deposits off the events: a commitment is registered with what the last
`DepositAvailable` says, and its status is that of the one event that ended it. A deposit whose
token calls back can be recorded over a deposit that has ended meanwhile; then the events end
the commitment and the contract has it pending again. Without that the events of a commitment
never go on after its end (`journal_good`).
-/

namespace Doxa.Contract

open Lib Function

inductive DepositLog
  | available (noteCommitment : Bytes32) (value : U256) (recipient : Address) (assetId : U256)
  | validated (noteCommitment : Bytes32)
  | withdrawn (noteCommitment : Bytes32)
  deriving DecidableEq, Repr

/-! ## Emitting -/

/-- The events so far; for each waiting call those before it, and those at its end. -/
structure Trace where
  logs : List DepositLog
  waiting : List (List DepositLog × List DepositLog)

/-- What a step of the machine does to the events. -/
inductive LogEffect
  | begins (atEnd : List DepositLog)
  | adds (logs : List DepositLog)
  | returns (logs : List DepositLog)
  | givesUp

def LogEffect.apply : LogEffect → Trace → Trace
  | .begins atEnd, t => ⟨t.logs, (t.logs, atEnd) :: t.waiting⟩
  | .adds logs, t => ⟨t.logs ++ logs, t.waiting⟩
  | .returns logs, ⟨l, (_, atEnd) :: rest⟩ => ⟨l ++ atEnd ++ logs, rest⟩
  | .givesUp, ⟨_, (old, _) :: rest⟩ => ⟨old, rest⟩
  | _, t => t

/-- A flush emits nothing for deposits; it goes on to its next transfer, ends, or panics. -/
def flushEffect (w : Vault) (todo : List (ℕ × Fin NOTE_BATCH)) (waits : Bool) : LogEffect :=
  match w.advance todo, waits with
  | .done, true => .returns []
  | .panic, true => .givesUp
  | .transfer _ _ _, false => .begins []
  | _, _ => .adds []

def enterEffect (m : VaultMachine) (c : Call) : LogEffect :=
  match c.op with
  | .depositAndRegister _ _ _ _ => .begins []
  | .depositAndRegisterFor _ _ _ _ _ => .begins []
  | .withdrawPendingDeposit n _ => .begins [.withdrawn n]
  | .flushPendingWithdrawals _ =>
    flushEffect m.world (positions m.world.contract.pendingWithdrawals.length) false
  | .proveBridgeTxBatch data _ =>
    .adds ((realDepositSlots data).map fun i => .validated (noteKey data i))
  | _ => .adds []

/-- `emit DepositAvailable`, once the token has answered for the last time. -/
def availableLog (n : Bytes32) (dep : Deposit) : DepositLog :=
  .available n dep.value dep.recipient dep.assetId

/-- The rest of a deposit whose balance was `before`, now that the token has answered. -/
def DepositArgs.record (d : DepositArgs) (before : ℕ) (w : Vault) : Except Error ContractState :=
  registerDeposit d.ctx d.note d.recipient d.assetId
    ⟨BitVec.ofNat 256 before, true, BitVec.ofNat 256 (w.balance d.token)⟩ w.contract

def resumeEffect (m : VaultMachine) (ok : Bool) : LogEffect :=
  match m.stack with
  | [] => .adds []
  | f :: _ =>
    match f.frame with
    | .before _ => .adds []
    | .pull _ _ _ => if ok then .adds [] else .givesUp
    | .after d before _ =>
      match d.record before m.world with
      | .ok s => .returns [availableLog d.note (s.deposits d.note)]
      | .error _ => .givesUp
    | .withdraw => if ok then .returns [] else .givesUp
    | .flush id j todo =>
      if ok then flushEffect { m.world with paid := m.world.paid ++ [(id, j)] } todo true
      else .givesUp

def logEffect (a : VaultAct) (m : VaultMachine) : LogEffect :=
  match a with
  | .enter c => enterEffect m c
  | .resume ok => resumeEffect m ok
  | .fail => .givesUp
  | .receive _ _ | .lose _ _ => .adds []

/-- The machine with the events of its history. -/
structure Journal where
  machine : VaultMachine
  trace : Trace

def journalStep (env : Env) (a : VaultAct) (j : Journal) : Except Error Journal := do
  let m ← vaultStep env a j.machine
  return ⟨m, (logEffect a j.machine).apply j.trace⟩

def Journal.start (s : ContractState) : Journal := ⟨Vault.start s, ⟨[], []⟩⟩

/-! ## What a step does to the deposits -/

/-- How the deposits move with the events `logs` now and `soon` at the end of a call. -/
inductive DepositsMove (d : Bytes32 → Deposit) :
    List DepositLog → List DepositLog → (Bytes32 → Deposit) → Prop
  | same : DepositsMove d [] [] d
  | register (n : Bytes32) (dep : Deposit) : dep.status = .pending →
      DepositsMove d [availableLog n dep] [] (update d n dep)
  | withdraw (n : Bytes32) : (d n).status = .pending →
      DepositsMove d [] [.withdrawn n] (update d n { d n with status := .withdrawn })
  | validate (keys : List Bytes32) (d' : Bytes32 → Deposit) :
      (∀ k ∈ keys, (d k).status = .pending ∧ d' k = (d k).validate) →
      (∀ k, k ∉ keys → d' k = d k) → DepositsMove d (keys.map .validated) [] d'

def snapshots (m : VaultMachine) : List Vault := m.stack.map Suspended.snapshot

/-- The machine moves as the effect says. -/
def Follows (m m' : VaultMachine) : LogEffect → Prop
  | .begins atEnd => snapshots m' = m.world :: snapshots m ∧
      DepositsMove m.world.contract.deposits [] atEnd m'.world.contract.deposits
  | .adds logs => snapshots m' = snapshots m ∧
      DepositsMove m.world.contract.deposits logs [] m'.world.contract.deposits
  | .returns logs => (∃ w, snapshots m = w :: snapshots m') ∧
      DepositsMove m.world.contract.deposits logs [] m'.world.contract.deposits
  | .givesUp => m' = m.revert

section Steps

variable {env : Env} {m m' : VaultMachine}

/-- The calls other than the four that touch deposits or tokens. -/
theorem step_same {c : Call} {s s' : ContractState} (h : step env c s = .ok s')
    (hop : c.op.isConfig = true ∨ (∃ b, c.op = .submitTransactionBatch b) ∨
      (∃ b, c.op = .submitBridgeTxBatch b) ∨ ∃ b p, c.op = .proveTransactionBatch b p) :
    s'.deposits = s.deposits := by
  obtain ⟨ctx, op⟩ := c
  rcases hop with hconfig | ⟨b, rfl⟩ | ⟨b, rfl⟩ | ⟨b, p, rfl⟩
  · exact (step_config hconfig h).2
  · obtain ⟨-, -, -, rfl⟩ := submitBatch_ok h
    rfl
  · obtain ⟨-, -, -, rfl⟩ := submitBatch_ok h
    rfl
  · rw [(proveTransactionBatch_ok h).2]

/-- A bridge batch validates the deposits its real slots name. -/
theorem prove_moves {data : Bytes} {proof : Proof} {s s' : ContractState}
    (h : proveBridgeTxBatch env data proof s = .ok s') :
    DepositsMove s.deposits ((realDepositSlots data).map fun i => .validated (noteKey data i)) []
      s'.deposits := by
  obtain ⟨htouched, huntouched⟩ := proveBridge_deposits h
  have hkeys : ((realDepositSlots data).map fun i => DepositLog.validated (noteKey data i)) =
      ((realDepositSlots data).map (noteKey data)).map .validated := by
    rw [List.map_map]
    rfl
  rw [hkeys]
  refine .validate _ _ (fun k hk => ?_) fun k hk => ?_
  · obtain ⟨i, hi, rfl⟩ := List.mem_map.mp hk
    obtain ⟨hrange, hreal⟩ := List.mem_filter.mp hi
    obtain ⟨hpending, -, heq⟩ := htouched i (List.mem_range.mp hrange) hreal
    exact ⟨hpending, heq⟩
  · refine huntouched k fun i hi hreal heq => hk ?_
    exact List.mem_map.mpr ⟨i, List.mem_filter.mpr ⟨List.mem_range.mpr hi, hreal⟩, heq⟩

/-- A flush that has not yet waited. -/
theorem continueFlush_starts {w : Vault} {stack : List (Suspended Vault Frame)}
    {todo : List (ℕ × Fin NOTE_BATCH)} :
    Follows ⟨w, stack⟩ (continueFlush w w stack todo) (flushEffect w todo false) := by
  unfold continueFlush flushEffect
  cases w.advance todo with
  | done => exact ⟨rfl, .same⟩
  | panic => exact ⟨rfl, .same⟩
  | transfer id j todo => exact ⟨rfl, .same⟩

/-- A flush whose transfer has returned. -/
theorem continueFlush_goesOn {w w' : Vault} {f : Suspended Vault Frame}
    {rest : List (Suspended Vault Frame)} {todo : List (ℕ × Fin NOTE_BATCH)}
    (hsame : w'.contract.deposits = w.contract.deposits) :
    Follows ⟨w, f :: rest⟩ (continueFlush f.snapshot w' rest todo) (flushEffect w' todo true) := by
  unfold continueFlush flushEffect
  cases w'.advance todo with
  | done =>
    refine ⟨⟨f.snapshot, rfl⟩, ?_⟩
    change DepositsMove w.contract.deposits [] [] w'.contract.deposits
    rw [hsame]
    exact .same
  | panic => rfl
  | transfer id j todo =>
    refine ⟨rfl, ?_⟩
    change DepositsMove w.contract.deposits [] [] w'.contract.deposits
    rw [hsame]
    exact .same

theorem beginDeposit_follows {ctx : Ctx} {n : Bytes32} {payer : Address} {a maxAmount : U256}
    (h : beginDeposit m ctx n payer a maxAmount = .ok m') : Follows m m' (.begins []) := by
  simp only [beginDeposit, bind_eq_ok, pure_eq_ok] at h
  obtain ⟨_, -, _, -, rfl⟩ := h
  exact ⟨rfl, .same⟩

theorem enter_follows {c : Call} (h : enter env m c = .ok m') :
    Follows m m' (enterEffect m c) := by
  -- a call that does not wait
  have hstep : ∀ {logs : List DepositLog} {new : List PendingWithdrawal},
      (∀ s', step env c m.world.contract = .ok s' →
        DepositsMove m.world.contract.deposits logs [] s'.deposits) →
      (do
        let s ← step env c m.world.contract
        return { m with world := m.world.queue s new }) = Except.ok m' →
      Follows m m' (.adds logs) := by
    intro logs new hmove hrun
    obtain ⟨s', hs', hm'⟩ := bind_eq_ok.mp hrun
    obtain rfl := pure_eq_ok.mp hm'
    exact ⟨rfl, hmove s' hs'⟩
  have hsame : ∀ s', step env c m.world.contract = .ok s' →
      (c.op.isConfig = true ∨ (∃ b, c.op = .submitTransactionBatch b) ∨
        (∃ b, c.op = .submitBridgeTxBatch b) ∨ ∃ b p, c.op = .proveTransactionBatch b p) →
      DepositsMove m.world.contract.deposits [] [] s'.deposits := by
    intro s' hs' hop
    rw [step_same hs' hop]
    exact .same
  obtain ⟨ctx, op⟩ := c
  cases op with
  | depositAndRegister n a x r => exact beginDeposit_follows h
  | depositAndRegisterFor n p a x r => exact beginDeposit_follows h
  | withdrawPendingDeposit n ok =>
    obtain ⟨s', hs', hm'⟩ := bind_eq_ok.mp h
    obtain rfl := pure_eq_ok.mp hm'
    obtain ⟨hpending, rfl⟩ := withdrawPendingDeposit_ok hs'
    exact ⟨rfl, .withdraw n hpending⟩
  | flushPendingWithdrawals ok =>
    cases h
    exact continueFlush_starts
  | proveBridgeTxBatch b p => exact hstep (fun s' hs' => prove_moves hs') h
  | submitTransactionBatch b => exact hstep (fun s' hs' => hsame s' hs' (.inr (.inl ⟨b, rfl⟩))) h
  | submitBridgeTxBatch b => exact hstep (fun s' hs' => hsame s' hs' (.inr (.inr (.inl ⟨b, rfl⟩)))) h
  | proveTransactionBatch b p =>
    exact hstep (fun s' hs' => hsame s' hs' (.inr (.inr (.inr ⟨b, p, rfl⟩)))) h
  | _ => exact hstep (fun s' hs' => hsame s' hs' (.inl rfl)) h

theorem record_moves {d : DepositArgs} {before : ℕ} {w : Vault} {s : ContractState}
    (h : d.record before w = .ok s) :
    DepositsMove w.contract.deposits [availableLog d.note (s.deposits d.note)] [] s.deposits := by
  simp only [DepositArgs.record, registerDeposit, revertIf_bind_eq_ok, pure_eq_ok] at h
  obtain ⟨-, -, rfl⟩ := h
  dsimp only
  rw [update_self]
  exact .register d.note _ rfl

theorem resume_follows {ok : Bool} (h : resume m ok = .ok m') :
    Follows m m' (resumeEffect m ok) := by
  obtain ⟨w, stack⟩ := m
  cases stack with
  | nil => cases h
  | cons f rest =>
    obtain ⟨snapshot, frame⟩ := f
    cases frame with
    | before d =>
      cases h
      exact ⟨rfl, .same⟩
    | pull d before recv =>
      cases ok with
      | true =>
        cases h
        exact ⟨rfl, .same⟩
      | false =>
        cases h
        rfl
    | after d before recv =>
      change (match d.record before w with
        | .ok s => Except.ok (⟨{ w with contract := s }, rest⟩ : VaultMachine)
        | .error _ => .ok ⟨snapshot, rest⟩) = .ok m' at h
      change Follows _ m' (match d.record before w with
        | .ok s => .returns [availableLog d.note (s.deposits d.note)]
        | .error _ => .givesUp)
      cases hrecord : d.record before w with
      | ok s =>
        rw [hrecord] at h
        cases h
        exact ⟨⟨snapshot, rfl⟩, record_moves hrecord⟩
      | error e =>
        rw [hrecord] at h
        cases h
        rfl
    | withdraw =>
      cases ok with
      | true =>
        cases h
        exact ⟨⟨snapshot, rfl⟩, .same⟩
      | false =>
        cases h
        rfl
    | flush id j todo =>
      cases ok with
      | true =>
        cases h
        exact continueFlush_goesOn rfl
      | false =>
        cases h
        rfl

theorem vaultStep_follows {a : VaultAct} (h : vaultStep env a m = .ok m') :
    Follows m m' (logEffect a m) := by
  cases a with
  | enter c => exact enter_follows h
  | resume ok => exact resume_follows h
  | fail =>
    cases h
    rfl
  | receive t x =>
    simp only [vaultStep] at h
    split at h
    · cases h
    · cases h
      exact ⟨rfl, .same⟩
  | lose t x =>
    cases h
    exact ⟨rfl, .same⟩

end Steps

/-! ## What the events say -/

/-- What an event registers a commitment with. -/
def registration (k : Bytes32) : DepositLog → Option (U256 × Address × U256)
  | .available n value recipient assetId => if n = k then some (value, recipient, assetId) else none
  | _ => none

/-- What the last event about it registers a commitment with. -/
def registered (k : Bytes32) (logs : List DepositLog) : Option (U256 × Address × U256) :=
  logs.reverse.findSome? (registration k)

/-- A commitment that has ended is not registered again. -/
def Precedes (x y : DepositLog) : Prop :=
  ∀ k, x = .validated k ∨ x = .withdrawn k → registration k y = none

structure KeyGood (k : Bytes32) (d : Deposit) (logs soon : List DepositLog) : Prop where
  registered : registered k logs =
    if d.status = .none then none else some (d.value, d.recipient, d.assetId)
  validated : .validated k ∈ logs ↔ d.status = .validated
  withdrawn : .withdrawn k ∈ logs ++ soon ↔ d.status = .withdrawn

/-- The events are those of the deposits, when `soon` is emitted too. -/
structure LogGood (d : Bytes32 → Deposit) (logs soon : List DepositLog) : Prop where
  keys : ∀ k, KeyGood k (d k) logs soon
  ordered : logs.Pairwise Precedes
  soon : ∀ x ∈ soon, ∃ k, x = .withdrawn k

section Logs

variable {d d' : Bytes32 → Deposit} {logs soon : List DepositLog} {k : Bytes32}

theorem registered_append (l l' : List DepositLog) :
    registered k (l ++ l') = (registered k l').or (registered k l) := by
  rw [registered, List.reverse_append, List.findSome?_append]
  rfl

theorem registered_append_none {l : List DepositLog} (h : ∀ x ∈ l, registration k x = none) :
    registered k (logs ++ l) = registered k logs := by
  have hnone : registered k l = none :=
    List.findSome?_eq_none_iff.mpr fun x hx => h x (List.mem_reverse.mp hx)
  rw [registered_append, hnone, Option.none_or]

theorem registered_singleton (x : DepositLog) : registered k [x] = registration k x := by
  unfold registered
  rw [List.reverse_singleton, List.findSome?_cons]
  cases registration k x with
  | none => rfl
  | some r => rfl

/-- No commitment is ended yet that the new events register. -/
theorem pairwise_append {new : List DepositLog} (h : logs.Pairwise Precedes)
    (hnew : new.Pairwise Precedes)
    (hopen : ∀ k, (∃ y ∈ new, registration k y ≠ none) →
      .validated k ∉ logs ∧ .withdrawn k ∉ logs) : (logs ++ new).Pairwise Precedes := by
  refine List.pairwise_append.mpr ⟨h, hnew, fun x hx y hy k hend => ?_⟩
  by_contra hreg
  obtain ⟨hvalidated, hwithdrawn⟩ := hopen k ⟨y, hy, hreg⟩
  rcases hend with rfl | rfl
  · exact hvalidated hx
  · exact hwithdrawn hx

/-- Events that register nothing keep the order. -/
theorem pairwise_append_none {new : List DepositLog} (h : logs.Pairwise Precedes)
    (hnew : ∀ y ∈ new, ∀ k, registration k y = none) : (logs ++ new).Pairwise Precedes := by
  refine pairwise_append h ?_ fun k => ?_
  · exact List.pairwise_of_forall_mem_list fun x _ y hy k _ => hnew y hy k
  · rintro ⟨y, hy, hreg⟩
    exact absurd (hnew y hy k) hreg

/-- The events a call emits at its end. -/
theorem LogGood.emit {atEnd : List DepositLog} (h : LogGood d logs (atEnd ++ soon)) :
    LogGood d (logs ++ atEnd) soon := by
  have hnone : ∀ y ∈ atEnd, ∀ k, registration k y = none := by
    intro y hy k
    obtain ⟨n, rfl⟩ := h.soon y (List.mem_append_left soon hy)
    rfl
  refine ⟨fun k => ⟨?_, ?_, ?_⟩, pairwise_append_none h.ordered hnone, fun x hx =>
    h.soon x (List.mem_append_right atEnd hx)⟩
  · rw [registered_append_none fun y hy => hnone y hy k]
    exact (h.keys k).registered
  · rw [← (h.keys k).validated, List.mem_append]
    refine or_iff_left fun hmem => ?_
    obtain ⟨n, hn⟩ := h.soon _ (List.mem_append_left soon hmem)
    cases hn
  · rw [List.append_assoc]
    exact (h.keys k).withdrawn

/-- Another commitment's event. -/
theorem KeyGood.other {dep : Deposit} {x : DepositLog} (h : KeyGood k dep logs soon)
    (hreg : registration k x = none) (hvalidated : x ≠ .validated k) (hwithdrawn : x ≠ .withdrawn k) :
    KeyGood k dep (logs ++ [x]) soon := by
  refine ⟨?_, ?_, ?_⟩
  · rw [registered_append_none fun y hy => by rw [List.mem_singleton.mp hy]; exact hreg]
    exact h.registered
  · rw [← h.validated, List.mem_append, List.mem_singleton]
    exact or_iff_left hvalidated.symm
  · rw [← h.withdrawn, List.append_assoc, List.mem_append, List.mem_append, List.mem_append,
      List.mem_singleton, or_iff_right hwithdrawn.symm]

theorem LogGood.register (h : LogGood d logs soon) {n : Bytes32} {dep : Deposit}
    (hdep : dep.status = .pending) (hopen : (d n).status = .none ∨ (d n).status = .pending) :
    LogGood (update d n dep) (logs ++ [availableLog n dep]) soon := by
  have hnot : ∀ st, st = .validated ∨ st = .withdrawn → (d n).status ≠ st := by
    rintro st (rfl | rfl) heq
    · rw [heq] at hopen
      rcases hopen with h | h <;> cases h
    · rw [heq] at hopen
      rcases hopen with h | h <;> cases h
  have hvalidated : DepositLog.validated n ∉ logs := fun hmem =>
    hnot _ (.inl rfl) ((h.keys n).validated.mp hmem)
  have hwithdrawn : DepositLog.withdrawn n ∉ logs ++ soon := fun hmem =>
    hnot _ (.inr rfl) ((h.keys n).withdrawn.mp hmem)
  refine ⟨fun k => ?_, ?_, h.soon⟩
  · by_cases hk : k = n
    · subst hk
      rw [update_self]
      refine ⟨?_, ?_, ?_⟩
      · rw [registered_append, registered_singleton, availableLog, registration, if_pos rfl, hdep]
        rfl
      · rw [hdep, List.mem_append, List.mem_singleton]
        refine iff_of_false ?_ DepositStatus.noConfusion
        rintro (hmem | hmem)
        · exact hvalidated hmem
        · cases hmem
      · rw [hdep, List.append_assoc, List.mem_append]
        refine iff_of_false ?_ DepositStatus.noConfusion
        rintro (hmem | hmem)
        · exact hwithdrawn (List.mem_append_left soon hmem)
        · rcases List.mem_cons.mp hmem with hmem | hmem
          · cases hmem
          · exact hwithdrawn (List.mem_append_right logs hmem)
    · rw [update_of_ne hk]
      exact (h.keys k).other (if_neg (Ne.symm hk)) DepositLog.noConfusion DepositLog.noConfusion
  · refine pairwise_append h.ordered (List.pairwise_singleton _ _) ?_
    rintro k ⟨y, hy, hreg⟩
    obtain rfl := List.mem_singleton.mp hy
    have hk : n = k := by
      by_contra hne
      exact hreg (if_neg hne)
    subst hk
    exact ⟨hvalidated, fun hmem => hwithdrawn (List.mem_append_left soon hmem)⟩

theorem LogGood.withdraw (h : LogGood d logs soon) {n : Bytes32} (hpending : (d n).status = .pending) :
    LogGood (update d n { d n with status := .withdrawn }) logs (.withdrawn n :: soon) := by
  refine ⟨fun k => ?_, h.ordered, ?_⟩
  · by_cases hk : k = n
    · subst hk
      rw [update_self]
      refine ⟨?_, ?_, ?_⟩
      · have hreg := (h.keys k).registered
        rw [hpending] at hreg
        exact hreg
      · rw [(h.keys k).validated, hpending]
        exact iff_of_false DepositStatus.noConfusion DepositStatus.noConfusion
      · exact iff_of_true (List.mem_append_right logs List.mem_cons_self) rfl
    · rw [update_of_ne hk]
      refine ⟨(h.keys k).registered, (h.keys k).validated, ?_⟩
      have hne : DepositLog.withdrawn k ≠ .withdrawn n := fun heq => hk (DepositLog.withdrawn.inj heq)
      rw [← (h.keys k).withdrawn, List.mem_append, List.mem_append, List.mem_cons, or_iff_right hne]
  · intro x hx
    rcases List.mem_cons.mp hx with rfl | hx
    · exact ⟨n, rfl⟩
    · exact h.soon x hx

theorem LogGood.validate (h : LogGood d logs soon) {keys : List Bytes32}
    (htouched : ∀ k ∈ keys, (d k).status = .pending ∧ d' k = (d k).validate)
    (huntouched : ∀ k, k ∉ keys → d' k = d k) :
    LogGood d' (logs ++ keys.map .validated) soon := by
  have hnone : ∀ y ∈ keys.map DepositLog.validated, ∀ k, registration k y = none := by
    intro y hy k
    obtain ⟨n, -, rfl⟩ := List.mem_map.mp hy
    rfl
  have hvalidated : ∀ k, DepositLog.validated k ∈ keys.map DepositLog.validated ↔ k ∈ keys :=
    fun k => List.mem_map_of_injective fun a b hab => DepositLog.validated.inj hab
  have hwithdrawn : ∀ k, DepositLog.withdrawn k ∉ keys.map DepositLog.validated := by
    intro k hmem
    obtain ⟨n, -, hn⟩ := List.mem_map.mp hmem
    cases hn
  refine ⟨fun k => ?_, pairwise_append_none h.ordered hnone, h.soon⟩
  have hold := h.keys k
  by_cases hk : k ∈ keys
  · obtain ⟨hpending, heq⟩ := htouched k hk
    rw [heq]
    refine ⟨?_, ?_, ?_⟩
    · have hreg := hold.registered
      rw [hpending] at hreg
      rw [registered_append_none fun y hy => hnone y hy k]
      exact hreg
    · exact iff_of_true (List.mem_append_right logs ((hvalidated k).mpr hk)) rfl
    · rw [List.append_assoc, List.mem_append, List.mem_append, or_iff_right (hwithdrawn k),
        ← List.mem_append, hold.withdrawn, hpending]
      exact iff_of_false DepositStatus.noConfusion DepositStatus.noConfusion
  · rw [huntouched k hk]
    refine ⟨?_, ?_, ?_⟩
    · rw [registered_append_none fun y hy => hnone y hy k]
      exact hold.registered
    · rw [← hold.validated, List.mem_append]
      exact or_iff_left fun hmem => hk ((hvalidated k).mp hmem)
    · rw [List.append_assoc, List.mem_append, List.mem_append, or_iff_right (hwithdrawn k),
        ← List.mem_append, hold.withdrawn]

/-- The deposits move, and no ended commitment is registered. -/
theorem LogGood.moves (h : LogGood d logs soon) {new atEnd : List DepositLog}
    (hmove : DepositsMove d new atEnd d')
    (hopen : ∀ x ∈ new, ∀ k, registration k x ≠ none →
      (d k).status ≠ .validated ∧ (d k).status ≠ .withdrawn) :
    LogGood d' (logs ++ new) (atEnd ++ soon) := by
  cases hmove with
  | same =>
    rw [List.append_nil]
    exact h
  | register n dep hdep =>
    refine h.register hdep ?_
    have hn : registration n (availableLog n dep) ≠ none := by
      rw [availableLog, registration, if_pos rfl]
      exact Option.some_ne_none _
    obtain ⟨hv, hw⟩ := hopen _ List.mem_cons_self n hn
    cases hst : (d n).status with
    | none => exact .inl rfl
    | pending => exact .inr rfl
    | validated => exact absurd hst hv
    | withdrawn => exact absurd hst hw
  | withdraw n hpending =>
    rw [List.append_nil]
    exact h.withdraw hpending
  | validate keys d' htouched huntouched => exact h.validate htouched huntouched

end Logs

/-! ## The history of the machine -/

/-- The waiting calls, each with the vault and the events from before it. -/
def Journal.calls (j : Journal) : List (Suspended (Vault × List DepositLog) (List DepositLog)) :=
  List.zipWith (fun w t => ⟨(w, t.1), t.2⟩) (snapshots j.machine) j.trace.waiting

/-- The events are those of the deposits, now and after any number of calls gave up. -/
structure JournalGood (j : Journal) : Prop where
  length : (snapshots j.machine).length = j.trace.waiting.length
  holds : Holds (fun x ends => LogGood x.1.contract.deposits x.2 ends.flatten)
    (j.machine.world, j.trace.logs) j.calls

/-- No deposit is recorded under a commitment that has been validated or withdrawn while the
deposit waited for its token. -/
def NotOver (m : VaultMachine) (a : VaultAct) : Prop :=
  match logEffect a m with
  | .returns logs => ∀ x ∈ logs, ∀ k, registration k x ≠ none →
      (m.world.contract.deposits k).status ≠ .validated ∧
        (m.world.contract.deposits k).status ≠ .withdrawn
  | _ => True

section Journals

variable {env : Env} {j j' : Journal} {a : VaultAct}

theorem journalStep_eq_ok (h : journalStep env a j = .ok j') :
    ∃ m, vaultStep env a j.machine = .ok m ∧
      j' = ⟨m, (logEffect a j.machine).apply j.trace⟩ := by
  obtain ⟨m, hm, hj⟩ := bind_eq_ok.mp h
  exact ⟨m, hm, (pure_eq_ok.mp hj).symm⟩

/-- Only the end of a deposit registers one. -/
theorem enterEffect_adds {m : VaultMachine} {c : Call} {logs : List DepositLog}
    (h : enterEffect m c = .adds logs) : ∀ x ∈ logs, ∀ k, registration k x = none := by
  obtain ⟨ctx, op⟩ := c
  cases op with
  | proveBridgeTxBatch data p =>
    cases h
    intro x hx k
    obtain ⟨i, -, rfl⟩ := List.mem_map.mp hx
    rfl
  | flushPendingWithdrawals ok =>
    simp only [enterEffect, flushEffect] at h
    split at h <;> cases h
    exact fun x hx => absurd hx List.not_mem_nil
  | depositAndRegister _ _ _ _ => cases h
  | depositAndRegisterFor _ _ _ _ _ => cases h
  | withdrawPendingDeposit _ _ => cases h
  | _ =>
    cases h
    exact fun x hx => absurd hx List.not_mem_nil

theorem resumeEffect_adds {m : VaultMachine} {ok : Bool} {logs : List DepositLog}
    (h : resumeEffect m ok = .adds logs) : logs = [] := by
  obtain ⟨w, stack⟩ := m
  cases stack with
  | nil =>
    cases h
    rfl
  | cons f rest =>
    obtain ⟨snapshot, frame⟩ := f
    cases frame with
    | before d =>
      cases h
      rfl
    | pull d before recv =>
      cases ok with
      | true =>
        cases h
        rfl
      | false => cases h
    | after d before recv =>
      change (match d.record before w with
        | .ok s => LogEffect.returns [availableLog d.note (s.deposits d.note)]
        | .error _ => .givesUp) = .adds logs at h
      split at h <;> cases h
    | withdraw => cases ok <;> cases h
    | flush id j todo =>
      cases ok with
      | true =>
        simp only [resumeEffect, flushEffect, if_true] at h
        split at h <;> cases h
        rfl
      | false => cases h

theorem logEffect_adds {m : VaultMachine} {logs : List DepositLog}
    (h : logEffect a m = .adds logs) : ∀ x ∈ logs, ∀ k, registration k x = none := by
  cases a with
  | enter c => exact enterEffect_adds h
  | resume ok =>
    rw [resumeEffect_adds h]
    exact fun x hx => absurd hx List.not_mem_nil
  | fail => cases h
  | receive t x | lose t x =>
    cases h
    exact fun x hx => absurd hx List.not_mem_nil

theorem journalStep_good (hj : JournalGood j) (hcond : NotOver j.machine a)
    (h : journalStep env a j = .ok j') : JournalGood j' := by
  obtain ⟨m, hm, rfl⟩ := journalStep_eq_ok h
  have hfollows := vaultStep_follows hm
  have hadds := @logEffect_adds a j.machine
  unfold NotOver at hcond
  obtain ⟨machine, logs, waiting⟩ := j
  obtain ⟨hlength, hholds⟩ := hj
  revert hfollows hcond hadds
  cases logEffect a machine with
  | begins atEnd =>
    rintro - ⟨hsnap, hmove⟩ -
    refine ⟨?_, ?_⟩
    · simp only [LogEffect.apply, hsnap, List.length_cons]
      exact congrArg Nat.succ hlength
    · have hnow := hholds.good.moves hmove fun x hx => absurd hx List.not_mem_nil
      rw [List.append_nil] at hnow
      simp only [Journal.calls, LogEffect.apply, hsnap, List.zipWith_cons_cons]
      exact ⟨hnow, hholds⟩
  | adds new =>
    rintro - ⟨hsnap, hmove⟩ hadds
    refine ⟨?_, ?_⟩
    · simp only [LogEffect.apply, hsnap]
      exact hlength
    · have hnow := hholds.good.moves hmove fun x hx k hreg => absurd (hadds rfl x hx k) hreg
      simp only [Journal.calls, LogEffect.apply, hsnap]
      exact hholds.world hnow
  | returns new =>
    rintro hcond ⟨⟨w, hsnap⟩, hmove⟩ -
    cases waiting with
    | nil =>
      rw [hsnap] at hlength
      cases hlength
    | cons t rest =>
      obtain ⟨old, atEnd⟩ := t
      simp only [Journal.calls, hsnap, List.zipWith_cons_cons] at hholds hlength
      refine ⟨?_, ?_⟩
      · exact Nat.succ.inj hlength
      · have hnow := LogGood.emit hholds.good
        exact hholds.return (hnow.moves hmove hcond)
  | givesUp =>
    rintro - hrevert -
    obtain rfl : m = machine.revert := hrevert
    obtain ⟨world, stack⟩ := machine
    cases stack with
    | nil =>
      cases waiting with
      | nil => exact ⟨hlength, hholds⟩
      | cons t rest => cases hlength
    | cons f rest =>
      cases waiting with
      | nil => cases hlength
      | cons t waiting => exact ⟨Nat.succ.inj hlength, hholds.2⟩

theorem start_journalGood {s : ContractState} (h : Deployed env s) : JournalGood (.start s) := by
  obtain ⟨_, _, _, _, _, _, _, hs⟩ := h
  have hdeposits : s.deposits = fun _ => Deposit.zero := by
    simp only [constructor, revertIf_bind_eq_ok, pure_eq_ok] at hs
    obtain ⟨-, -, -, -, -, -, rfl⟩ := hs
    rfl
  refine ⟨rfl, ?_⟩
  change LogGood s.deposits [] []
  rw [hdeposits]
  refine ⟨fun k => ⟨rfl, ?_, ?_⟩, List.Pairwise.nil, fun x hx => absurd hx List.not_mem_nil⟩
  · exact iff_of_false List.not_mem_nil DepositStatus.noConfusion
  · exact iff_of_false List.not_mem_nil DepositStatus.noConfusion

/-- In every history in which no deposit is recorded over an ended one, the events tell the
deposits whenever no call waits. -/
theorem journal_good {s : ContractState} (h : Deployed env s) {acts : List VaultAct}
    (hcond : Along (vaultStep env) NotOver (Vault.start s) acts) :
    JournalGood (run (journalStep env) (.start s) acts) := by
  have hmachine : ∀ (j : Journal) (a : VaultAct),
      (attempt (journalStep env) j a).machine = attempt (vaultStep env) j.machine a := by
    intro j a
    cases hstep : vaultStep env a j.machine with
    | ok m =>
      have hj : journalStep env a j = .ok ⟨m, (logEffect a j.machine).apply j.trace⟩ := by
        rw [journalStep, hstep]
        rfl
      rw [attempt_ok hstep, attempt_ok hj]
    | error e =>
      have hj : journalStep env a j = .error e := by
        rw [journalStep, hstep]
        rfl
      rw [attempt_error hstep, attempt_error hj]
  have halong : ∀ (j : Journal) (acts : List VaultAct),
      Along (vaultStep env) NotOver j.machine acts →
      Along (journalStep env) (fun j a => NotOver j.machine a) j acts := by
    intro j acts
    induction acts generalizing j with
    | nil => exact id
    | cons a acts ih =>
      rintro ⟨ha, hrest⟩
      refine ⟨ha, ih _ ?_⟩
      rw [hmachine]
      exact hrest
  exact run_inv_along JournalGood (start_journalGood h) (halong _ _ hcond)
    fun _ _ _ _ hgood hover hstep => journalStep_good hgood hover hstep

theorem JournalGood.idle (h : JournalGood j) (hidle : j.machine.stack = []) :
    LogGood j.machine.world.contract.deposits j.trace.logs [] := by
  have hgood := h.holds.good
  simp only [Journal.calls, snapshots, hidle, List.map_nil, List.zipWith_nil_left] at hgood
  exact hgood

theorem JournalGood.waiting (h : JournalGood j) (hidle : j.machine.stack = []) :
    j.trace.waiting = [] := by
  have hlength := h.length
  simp only [snapshots, hidle, List.map_nil, List.length_nil] at hlength
  exact List.length_eq_zero_iff.mp hlength.symm

/-! ## Earlier events -/

/-- The same trace after the events `l`. -/
def Trace.after (l : List DepositLog) (t : Trace) : Trace :=
  ⟨l ++ t.logs, t.waiting.map fun x => (l ++ x.1, x.2)⟩

theorem apply_after (l : List DepositLog) (e : LogEffect) (t : Trace) :
    e.apply (t.after l) = (e.apply t).after l := by
  obtain ⟨logs, waiting⟩ := t
  cases e with
  | begins atEnd => rfl
  | adds new => simp only [LogEffect.apply, Trace.after, List.append_assoc]
  | returns new =>
    cases waiting with
    | nil => rfl
    | cons t rest => simp only [LogEffect.apply, Trace.after, List.map_cons, List.append_assoc]
  | givesUp =>
    cases waiting with
    | nil => rfl
    | cons t rest => rfl

/-- Earlier events do not matter. -/
theorem run_after (l : List DepositLog) (m : VaultMachine) (t : Trace) (acts : List VaultAct) :
    run (journalStep env) ⟨m, t.after l⟩ acts =
      ⟨(run (journalStep env) ⟨m, t⟩ acts).machine,
        (run (journalStep env) ⟨m, t⟩ acts).trace.after l⟩ := by
  induction acts generalizing m t with
  | nil => rfl
  | cons a acts ih =>
    rw [run_cons, run_cons]
    cases hstep : vaultStep env a m with
    | ok m' =>
      have hj : ∀ t, journalStep env a ⟨m, t⟩ = .ok ⟨m', (logEffect a m).apply t⟩ := by
        intro t
        rw [journalStep, hstep]
        rfl
      rw [attempt_ok (hj _), attempt_ok (hj _), apply_after]
      exact ih m' _
    | error e =>
      have hj : ∀ t, journalStep env a ⟨m, t⟩ = .error e := by
        intro t
        rw [journalStep, hstep]
        rfl
      rw [attempt_error (hj _), attempt_error (hj _)]
      exact ih m t

end Journals

end Doxa.Contract
