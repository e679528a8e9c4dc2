import Doxa.Contract.Effects
import Mathlib.Data.Set.Card

/-!
# The ledger of confirmed batches

Reading a run as the list of its batch events (`Event`), the contract is a ledger: a batch
is submitted, later confirmed, and the confirmed batches determine the tree, the nullifier
set and the confirmed mappings. `LedgerInv` states this correspondence; one call keeps it
(`step_ledgerInv`), so it holds after every run of all external functions
(`ledger_of_run`).

The nullifier set being the union over the confirmed batches does not say that no
nullifier is used twice: the pre-check reads the set before the batch is marked. Two
batches never share a nullifier, and `slots_apart_of_run` reduces the question to each
batch by itself.
-/

namespace Doxa.Contract

open Lib Function

/-- What a successful call did to the batches. -/
inductive Event
  | submitted (kind : BatchKind) (data : Bytes)
  | confirmed (kind : BatchKind) (data : Bytes)

def record (c : Call) : List Event :=
  match c.op with
  | .submitTransactionBatch b => [.submitted .tx b]
  | .proveTransactionBatch b _ => [.confirmed .tx b]
  | .submitBridgeTxBatch b => [.submitted .bridge b]
  | .proveBridgeTxBatch b _ => [.confirmed .bridge b]
  | _ => []

/-- The confirmed batches in the order of their confirmation. -/
def confirmedOf (log : List Event) : List (BatchKind × Bytes) :=
  log.filterMap fun
    | .confirmed kind data => some (kind, data)
    | .submitted _ _ => none

/-- The leaves the confirmed batches put into the tree. -/
def rootsOf (log : List Event) : List U256 := (confirmedOf log).map fun b => batchRoot b.2

/-- The commitments of the confirmed batches of one kind. -/
def confirmedPis (env : Env) (kind : BatchKind) (log : List Event) : List Bytes32 :=
  ((confirmedOf log).filter fun b => b.1 = kind).map fun b => piCommitment env b.2

variable {env : Env} {s s' : ContractState} {log : List Event} {c : Call}

/-- A call submits, confirms, or leaves the ledger alone. -/
theorem step_cases (h : step env c s = .ok s') :
    (record c = [] ∧ SameLedger s s') ∨
      (∃ kind data, record c = [.submitted kind data] ∧
        submitBatch env c.ctx kind data s = .ok s') ∨
      ∃ kind data, record c = [.confirmed kind data] ∧ Confirms env kind data s s' := by
  by_cases hconfig : c.op.isConfig = true
  · left
    refine ⟨?_, (step_config hconfig h).1⟩
    obtain ⟨ctx, op⟩ := c
    cases op <;> first | rfl | cases hconfig
  · obtain ⟨ctx, op⟩ := c
    cases op with
    | depositAndRegister n a m r =>
        obtain ⟨-, dep, -, rfl⟩ := step_deposit (.inl rfl) h
        exact .inl ⟨rfl, rfl, rfl, rfl, rfl, rfl⟩
    | depositAndRegisterFor n p a m r =>
        obtain ⟨-, dep, -, rfl⟩ := step_deposit (.inr ⟨p, rfl⟩) h
        exact .inl ⟨rfl, rfl, rfl, rfl, rfl, rfl⟩
    | withdrawPendingDeposit n ok =>
        obtain ⟨-, rfl⟩ := withdrawPendingDeposit_ok h
        exact .inl ⟨rfl, rfl, rfl, rfl, rfl, rfl⟩
    | submitTransactionBatch b => exact .inr (.inl ⟨.tx, b, rfl, h⟩)
    | submitBridgeTxBatch b => exact .inr (.inl ⟨.bridge, b, rfl, h⟩)
    | proveTransactionBatch b p =>
        exact .inr (.inr ⟨.tx, b, rfl, (proveTransactionBatch_ok h).1⟩)
    | proveBridgeTxBatch b p => exact .inr (.inr ⟨.bridge, b, rfl, proveBridgeTxBatch_ok h⟩)
    | _ => exact absurd rfl hconfig

@[simp] theorem confirmedOf_append (l₁ l₂ : List Event) :
    confirmedOf (l₁ ++ l₂) = confirmedOf l₁ ++ confirmedOf l₂ :=
  List.filterMap_append

@[simp] theorem confirmedOf_submitted (kind : BatchKind) (data : Bytes) :
    confirmedOf [.submitted kind data] = [] := rfl

@[simp] theorem confirmedOf_confirmed (kind : BatchKind) (data : Bytes) :
    confirmedOf [.confirmed kind data] = [(kind, data)] := rfl

theorem rootsOf_concat (kind : BatchKind) (data : Bytes) :
    rootsOf (log ++ [.confirmed kind data]) = rootsOf log ++ [batchRoot data] := by
  simp [rootsOf]

theorem mem_confirmedPis_concat {kind k : BatchKind} {data : Bytes} {pi : Bytes32} :
    pi ∈ confirmedPis env k (log ++ [.confirmed kind data]) ↔
      pi ∈ confirmedPis env k log ∨ (kind = k ∧ piCommitment env data = pi) := by
  by_cases hk : kind = k <;> simp [confirmedPis, hk, eq_comm]

/-- The state is what the confirmed batches make of it. -/
structure LedgerInv (env : Env) (s : ContractState) (log : List Event) : Prop where
  apart : ∀ k pi, s.pendingBatches k pi = true → s.confirmedBatches k pi = false
  counter : Counter env.compress s.treeDepth (leafOf (rootsOf log)) s.imt
  count : s.imt.leafCount = (rootsOf log).length
  confirmed : ∀ k pi, s.confirmedBatches k pi = true ↔ pi ∈ confirmedPis env k log
  distinct : ∀ k, (confirmedPis env k log).Nodup
  nullifiers : ∀ x, s.nullifiers x = true ↔
    ∃ b ∈ confirmedOf log, x ∈ batchNullifiers b.1 b.2
  origin : ∀ k pi, s.pendingBatches k pi = true →
    ∃ data, .submitted k data ∈ log ∧ piCommitment env data = pi
  roots : ∀ k data, .submitted k data ∈ log → s.imt.confirmedRoots (stateRoot data) = true

theorem update_update_true {α : Type*} [DecidableEq α] {f : BatchKind → α → Bool}
    {kind k : BatchKind} {a x : α} :
    update f kind (update (f kind) a true) k x = true ↔ f k x = true ∨ (kind = k ∧ a = x) := by
  by_cases hk : k = kind
  · subst hk
    rw [update_self, update_true]
    simp
  · rw [update_of_ne hk]
    simp [Ne.symm hk]

theorem update_update_false {α : Type*} [DecidableEq α] {f : BatchKind → α → Bool}
    {kind k : BatchKind} {a x : α} :
    update f kind (update (f kind) a false) k x = true ↔
      f k x = true ∧ ¬(kind = k ∧ a = x) := by
  by_cases hk : k = kind
  · subst hk
    rw [update_self]
    by_cases hx : x = a
    · subst hx
      simp
    · rw [update_of_ne hx]
      simp [Ne.symm hx]
  · rw [update_of_ne hk]
    simp [Ne.symm hk]

theorem sameLedger_inv (hs : SameLedger s s') (hI : LedgerInv env s log) :
    LedgerInv env s' log := by
  refine ⟨?_, ?_, ?_, ?_, hI.distinct, ?_, ?_, ?_⟩
  · rw [hs.pendingBatches, hs.confirmedBatches]
    exact hI.apart
  · rw [hs.treeDepth, hs.imt]
    exact hI.counter
  · rw [hs.imt]
    exact hI.count
  · rw [hs.confirmedBatches]
    exact hI.confirmed
  · rw [hs.nullifiers]
    exact hI.nullifiers
  · rw [hs.pendingBatches]
    exact hI.origin
  · rw [hs.imt]
    exact hI.roots

theorem submit_inv {ctx : Ctx} {kind : BatchKind} {data : Bytes}
    (h : submitBatch env ctx kind data s = .ok s') (hI : LedgerInv env s log) :
    LedgerInv env s' (log ++ [.submitted kind data]) := by
  obtain ⟨hroot, hconf, -, rfl⟩ := submitBatch_ok h
  have hlog : confirmedOf (log ++ [.submitted kind data]) = confirmedOf log := by simp
  have hroots : rootsOf (log ++ [.submitted kind data]) = rootsOf log := by simp [rootsOf]
  have hpis : ∀ k, confirmedPis env k (log ++ [.submitted kind data]) = confirmedPis env k log := by
    simp [confirmedPis]
  refine ⟨?_, ?_, ?_, ?_, ?_, ?_, ?_, ?_⟩
  · intro k pi hpi
    rcases update_update_true.mp hpi with hpi | ⟨rfl, rfl⟩
    · exact hI.apart k pi hpi
    · exact hconf
  · rw [hroots]
    exact hI.counter
  · rw [hroots]
    exact hI.count
  · intro k pi
    rw [hpis]
    exact hI.confirmed k pi
  · intro k
    rw [hpis]
    exact hI.distinct k
  · rw [hlog]
    exact hI.nullifiers
  · intro k pi hpi
    rcases update_update_true.mp hpi with hpi | ⟨rfl, rfl⟩
    · obtain ⟨d, hd, hpid⟩ := hI.origin k pi hpi
      exact ⟨d, List.mem_append_left _ hd, hpid⟩
    · exact ⟨data, List.mem_append_right _ (List.mem_singleton_self _), rfl⟩
  · intro k d hd
    rcases List.mem_append.mp hd with hd | hd
    · exact hI.roots k d hd
    · cases List.mem_singleton.mp hd
      exact hroot

theorem confirm_inv {kind : BatchKind} {data : Bytes} (h : Confirms env kind data s s')
    (hI : LedgerInv env s log) : LedgerInv env s' (log ++ [.confirmed kind data]) := by
  have hnew : piCommitment env data ∉ confirmedPis env kind log := by
    intro hmem
    have hconf := (hI.confirmed kind _).mpr hmem
    rw [hI.apart kind _ h.pending] at hconf
    cases hconf
  refine ⟨?_, ?_, ?_, ?_, ?_, ?_, ?_, ?_⟩
  · intro k pi hpi
    rw [h.pendingBatches] at hpi
    obtain ⟨hpi, hother⟩ := update_update_false.mp hpi
    rw [h.confirmedBatches, Bool.eq_false_iff]
    intro hconf
    rcases update_update_true.mp hconf with hconf | hconf
    · rw [hI.apart k pi hpi] at hconf
      cases hconf
    · exact hother hconf
  · rw [rootsOf_concat, leafOf_concat, ← hI.count, h.treeDepth]
    exact appendLeaf_counter hI.counter h.appended
  · rw [rootsOf_concat, List.length_append, List.length_singleton, ← hI.count]
    exact appendLeaf_leafCount h.appended
  · intro k pi
    rw [h.confirmedBatches, update_update_true, hI.confirmed, mem_confirmedPis_concat]
  · intro k
    by_cases hk : kind = k
    · subst hk
      have hcons : confirmedPis env kind (log ++ [.confirmed kind data]) =
          confirmedPis env kind log ++ [piCommitment env data] := by simp [confirmedPis]
      rw [hcons]
      exact (hI.distinct kind).append (List.nodup_singleton _)
        (List.disjoint_singleton.mpr hnew)
    · have hsame : confirmedPis env k (log ++ [.confirmed kind data]) = confirmedPis env k log := by
        simp [confirmedPis, hk]
      rw [hsame]
      exact hI.distinct k
  · intro x
    rw [h.nullifiers, hI.nullifiers]
    simp [or_and_right, exists_or]
  · intro k pi hpi
    rw [h.pendingBatches] at hpi
    obtain ⟨d, hd, hpid⟩ := hI.origin k pi (update_update_false.mp hpi).1
    exact ⟨d, List.mem_append_left _ hd, hpid⟩
  · intro k d hd
    rcases List.mem_append.mp hd with hd | hd
    · exact (appendLeaf_confirmedRoots h.appended).2 _ (hI.roots k d hd)
    · cases List.mem_singleton.mp hd

/-- One call keeps the invariant, appending its event. -/
theorem step_ledgerInv (hI : LedgerInv env s log) (h : step env c s = .ok s') :
    LedgerInv env s' (log ++ record c) := by
  rcases step_cases h with ⟨hrec, hsame⟩ | ⟨kind, data, hrec, hsub⟩ | ⟨kind, data, hrec, hconf⟩
  · rw [hrec, List.append_nil]
    exact sameLedger_inv hsame hI
  · rw [hrec]
    exact submit_inv hsub hI
  · rw [hrec]
    exact confirm_inv hconf hI

/-! ## Runs from deployment -/

/-- A deployed contract. -/
structure Deployed (env : Env) (s : ContractState) : Prop where
  deployed : ∃ txVerifier bridgeTxVerifier poseidon operator treeDepth configTreeDepth delay,
    constructor env txVerifier bridgeTxVerifier poseidon operator treeDepth configTreeDepth delay =
      .ok s

theorem deployed_state (h : Deployed env s) :
    s.imt = ImtState.empty.init env.compress s.treeDepth ∧ s.nullifiers = (fun _ => false) ∧
      s.pendingBatches = (fun _ _ => false) ∧ s.confirmedBatches = (fun _ _ => false) ∧
      s.deposits = fun _ => Deposit.zero := by
  obtain ⟨_, _, _, _, _, _, _, h⟩ := h.deployed
  simp only [constructor, revertIf_bind_eq_ok, pure_eq_ok] at h
  obtain ⟨-, -, -, -, -, -, rfl⟩ := h
  exact ⟨rfl, rfl, rfl, rfl, rfl⟩

theorem ledgerInv_deployed (h : Deployed env s) : LedgerInv env s [] := by
  obtain ⟨himt, hnull, hpend, hconf, -⟩ := deployed_state h
  refine ⟨?_, ?_, ?_, ?_, fun k => List.nodup_nil, ?_, ?_, ?_⟩
  · simp [hpend]
  · rw [himt]
    exact counter_init env.compress s.treeDepth
  · rw [himt]
    rfl
  · simp [hconf, confirmedPis, confirmedOf]
  · simp [hnull, confirmedOf]
  · simp [hpend]
  · simp

/-- The state and the event log of a run of calls. -/
def runContract (env : Env) (s : ContractState) (calls : List Call) : ContractState × List Event :=
  runLog (step env) record s calls

theorem runContract_concat {calls : List Call}
    (h : step env c (runContract env s calls).1 = .ok s') :
    runContract env s (calls ++ [c]) = (s', (runContract env s calls).2 ++ record c) := by
  unfold runContract at h ⊢
  rw [runLog_concat]
  simp only [attemptLog, h]

theorem ledger_of_run (h : Deployed env s) (calls : List Call) :
    LedgerInv env (runContract env s calls).1 (runContract env s calls).2 :=
  runLog_inv (step env) record s calls (LedgerInv env) (ledgerInv_deployed h)
    fun _ _ _ _ _ hI hstep => step_ledgerInv hI hstep

theorem confirmedPis_length (log : List Event) :
    (confirmedPis env .tx log).length + (confirmedPis env .bridge log).length =
      (rootsOf log).length := by
  unfold confirmedPis rootsOf
  simp only [List.length_map]
  induction confirmedOf log with
  | nil => rfl
  | cons b l ih =>
      obtain ⟨kind, data⟩ := b
      cases kind <;> simp <;> omega

/-- The confirmed batches of one kind, counted. -/
theorem ncard_confirmed (hI : LedgerInv env s log) (k : BatchKind) :
    {pi | s.confirmedBatches k pi = true}.ncard = (confirmedPis env k log).length := by
  have hset : {pi | s.confirmedBatches k pi = true} =
      ((confirmedPis env k log).toFinset : Set Bytes32) := by
    ext pi
    rw [Set.mem_ofPred_eq, hI.confirmed, List.coe_toFinset, Set.mem_ofPred_eq]
  rw [hset, Set.ncard_coe_finset, List.toFinset_card_of_nodup (hI.distinct k)]

/-- In every reachable state no batch is both pending and confirmed, the tree has one leaf
for each confirmed batch, its batch root, in the order of confirmation, the nullifier set
is the union over the real slots of the confirmed batches, a pending batch refers to a
confirmed root, and a reverting call changes nothing. -/
theorem ledger_invariant (env : Env) (s₀ : ContractState) (h₀ : Deployed env s₀)
    (calls : List Call) (s : ContractState) (log : List Event)
    (hrun : runContract env s₀ calls = (s, log)) :
    (∀ k pi, ¬(s.pendingBatches k pi = true ∧ s.confirmedBatches k pi = true)) ∧
      s.imt.leafCount = {pi | s.confirmedBatches .tx pi = true}.ncard +
        {pi | s.confirmedBatches .bridge pi = true}.ncard ∧
      (∀ k pi, s.confirmedBatches k pi = true ↔ pi ∈ confirmedPis env k log) ∧
      (s.imt.leafCount = (rootsOf log).length ∧ ∀ i, s.imt.leaves i = (rootsOf log).getD i 0) ∧
      (∀ x, s.nullifiers x = true ↔ ∃ b ∈ confirmedOf log, x ∈ batchNullifiers b.1 b.2) ∧
      (∀ k pi, s.pendingBatches k pi = true →
        (∃ data, .submitted k data ∈ log ∧ piCommitment env data = pi) ∧
        ∀ data, .submitted k data ∈ log → piCommitment env data = pi →
          s.imt.confirmedRoots (stateRoot data) = true) ∧
      ∀ c e, step env c s = .error e → runContract env s₀ (calls ++ [c]) = (s, log) := by
  have hI := ledger_of_run h₀ calls
  rw [hrun] at hI
  refine ⟨?_, ?_, hI.confirmed, ⟨hI.count, hI.counter.recorded⟩, hI.nullifiers, ?_, ?_⟩
  · rintro k pi ⟨hpend, hconf⟩
    rw [hI.apart k pi hpend] at hconf
    cases hconf
  · rw [ncard_confirmed hI, ncard_confirmed hI, confirmedPis_length]
    exact hI.count
  · intro k pi hpi
    exact ⟨hI.origin k pi hpi, fun data hdata _ => hI.roots k data hdata⟩
  · intro c e he
    unfold runContract at hrun ⊢
    rw [runLog_concat, hrun]
    simp only [attemptLog, he]

/-! ## No nullifier twice -/

/-- The real slots of the confirmed batches, each with its nullifiers. -/
def confirmedSlots (log : List Event) : List (List U256) :=
  (confirmedOf log).flatMap fun b => slotNullifiers b.1 b.2

/-- No two real slots of the batch carry the same nullifier. -/
def SlotsApart (kind : BatchKind) (data : Bytes) : Prop :=
  (slotNullifiers kind data).Pairwise List.Disjoint

instance decidableDisjoint {α : Type*} [DecidableEq α] (l m : List α) : Decidable (l.Disjoint m) :=
  decidable_of_iff (∀ x ∈ l, x ∉ m) Iff.rfl

instance (kind : BatchKind) (data : Bytes) : Decidable (SlotsApart kind data) :=
  inferInstanceAs (Decidable (List.Pairwise List.Disjoint (slotNullifiers kind data)))

/-- Different confirmed batches have no nullifier in common. -/
def BatchesApart (log : List Event) : Prop :=
  (confirmedOf log).Pairwise fun b b' =>
    (batchNullifiers b.1 b.2).Disjoint (batchNullifiers b'.1 b'.2)

theorem step_batchesApart (hI : LedgerInv env s log) (hB : BatchesApart log)
    (h : step env c s = .ok s') : BatchesApart (log ++ record c) := by
  rcases step_cases h with ⟨hrec, -⟩ | ⟨kind, data, hrec, -⟩ | ⟨kind, data, hrec, hconf⟩
  · rw [hrec, List.append_nil]
    exact hB
  · rw [hrec, BatchesApart, confirmedOf_append, confirmedOf_submitted, List.append_nil]
    exact hB
  · rw [hrec, BatchesApart, confirmedOf_append, confirmedOf_confirmed, List.pairwise_append]
    refine ⟨hB, List.pairwise_singleton _ _, fun b hb b' hb' => ?_⟩
    cases List.mem_singleton.mp hb'
    intro x hx hx'
    -- an old nullifier is in the set, and the pre-check found the new ones unused
    have hused : s.nullifiers x = true := (hI.nullifiers x).mpr ⟨b, hb, hx⟩
    rw [hconf.unused x hx'] at hused
    cases hused

theorem batchesApart_of_run (h : Deployed env s) (calls : List Call) :
    BatchesApart (runContract env s calls).2 := by
  have hinv := runLog_inv (step env) record s calls
    (fun t l => LedgerInv env t l ∧ BatchesApart l)
    ⟨ledgerInv_deployed h, List.Pairwise.nil⟩
    fun c _ t t' l hI hstep => ⟨step_ledgerInv hI.1 hstep, step_batchesApart hI.1 hI.2 hstep⟩
  exact hinv.2

theorem mem_batch_of_mem_slot {kind : BatchKind} {data : Bytes} {slot : List U256} {x : U256}
    (hslot : slot ∈ slotNullifiers kind data) (hx : x ∈ slot) : x ∈ batchNullifiers kind data :=
  List.mem_flatten.mpr ⟨slot, hslot, hx⟩

theorem slots_apart_iff (hB : BatchesApart log) :
    (confirmedSlots log).Pairwise List.Disjoint ↔
      ∀ b ∈ confirmedOf log, SlotsApart b.1 b.2 := by
  rw [confirmedSlots, List.pairwise_flatMap]
  refine and_iff_left (hB.imp fun hbb => ?_)
  intro slot hslot slot' hslot' x hx hx'
  exact hbb (mem_batch_of_mem_slot hslot hx) (mem_batch_of_mem_slot hslot' hx')

/-- What a run confirmed, its calls had asked for. -/
theorem confirmed_of_call (calls : List Call) {b : BatchKind × Bytes}
    (hb : b ∈ confirmedOf (runContract env s calls).2) :
    ∃ c ∈ calls, .confirmed b.1 b.2 ∈ record c := by
  have hinv := runLog_inv (step env) record s calls
    (fun _ l => ∀ b ∈ confirmedOf l, ∃ c ∈ calls, .confirmed b.1 b.2 ∈ record c)
    (fun b hb => by cases hb) ?_
  · exact hinv b hb
  · intro c hc t t' l hl hstep b hb
    rw [confirmedOf_append, List.mem_append] at hb
    rcases hb with hb | hb
    · exact hl b hb
    · refine ⟨c, hc, ?_⟩
      rcases step_cases hstep with ⟨hrec, -⟩ | ⟨kind, data, hrec, -⟩ | ⟨kind, data, hrec, -⟩
      · rw [hrec] at hb
        cases hb
      · rw [hrec] at hb
        cases hb
      · rw [hrec, confirmedOf_confirmed, List.mem_singleton] at hb
        rw [hrec, hb]
        exact List.mem_singleton_self _

/-- In a run whose batches each have pairwise disjoint real slots no nullifier is consumed
twice; and it is consumed twice in every run that confirms another batch. -/
theorem nullifier_consumed_once (env : Env) (s₀ : ContractState) (h₀ : Deployed env s₀)
    (calls : List Call) :
    ((∀ c ∈ calls, ∀ kind data, .confirmed kind data ∈ record c → SlotsApart kind data) →
        (confirmedSlots (runContract env s₀ calls).2).Pairwise List.Disjoint) ∧
      ((confirmedSlots (runContract env s₀ calls).2).Pairwise List.Disjoint ↔
        ∀ b ∈ confirmedOf (runContract env s₀ calls).2, SlotsApart b.1 b.2) := by
  have hiff := slots_apart_iff (batchesApart_of_run h₀ calls)
  refine ⟨fun hcalls => hiff.mpr fun b hb => ?_, hiff⟩
  obtain ⟨c, hc, hrec⟩ := confirmed_of_call calls hb
  exact hcalls c hc b.1 b.2 hrec

/-! ## A batch with two real slots -/

/-- An environment with constant hashes and the accepting verifier. -/
def sampleEnv : Env where
  keccak256 := fun _ => 1
  compress := fun _ _ => 0
  verifyProof := fun _ _ _ => true

def sampleProof : Proof := ⟨fun _ => 0, fun _ => 0, fun _ => 0⟩

/-- A batch with two real slots, fourteen different note nullifiers and the given account
nullifiers. -/
def sampleBatch (account : ℕ → BitVec 8) : Bytes where
  length := TX_HEADER_SIZE + PRIV_TX_BATCH_SIZE * TX_SLOT_SIZE
  byte := fun i =>
    let slot := (i - TX_HEADER_SIZE) / TX_SLOT_SIZE
    let off := (i - TX_HEADER_SIZE) % TX_SLOT_SIZE
    if i < TX_HEADER_SIZE ∨ 2 ≤ slot then 0
    else if off = 3 then 1
    else if off = TX_ACCIN_NULL_OFF + 3 then account slot
    else if TX_NOTE_IN_OFF ≤ off ∧ off < TX_NOTE_IN_OFF + NOTE_BATCH * 32 ∧
        (off - TX_NOTE_IN_OFF) % 32 = 3 then
      BitVec.ofNat 8 (16 + NOTE_BATCH * slot + (off - TX_NOTE_IN_OFF) / 32)
    else 0

/-- The operator submits a batch, anyone proves it. -/
def submitAndProve (data : Bytes) : List Call :=
  [⟨⟨1, 0⟩, .submitTransactionBatch data⟩, ⟨⟨2, 0⟩, .proveTransactionBatch data sampleProof⟩]

/-- A contract with trees of depth one, deployed by the operator `1`. -/
def sampleState : ContractState := (constructor sampleEnv 1 1 1 1 1 1 0).toOption.get rfl

theorem sampleState_deployed : Deployed sampleEnv sampleState := ⟨1, 1, 1, 1, 1, 1, 0, rfl⟩

/-- Two slots that spend the same account state are confirmed in one batch. -/
theorem shared_account_nullifier_confirmed : Deployed sampleEnv sampleState ∧
    confirmedSlots (runContract sampleEnv sampleState
      (submitAndProve (sampleBatch fun _ => 5))).2 =
        [[5, 16, 17, 18, 19, 20, 21, 22], [5, 23, 24, 25, 26, 27, 28, 29]] ∧
    ¬(confirmedSlots (runContract sampleEnv sampleState
      (submitAndProve (sampleBatch fun _ => 5))).2).Pairwise List.Disjoint := by
  have hslots : confirmedSlots (runContract sampleEnv sampleState
      (submitAndProve (sampleBatch fun _ => 5))).2 =
        [[5, 16, 17, 18, 19, 20, 21, 22], [5, 23, 24, 25, 26, 27, 28, 29]] := by
    decide +kernel
  refine ⟨sampleState_deployed, hslots, ?_⟩
  rw [hslots]
  decide

theorem nullifier_consumed_once_sample : Deployed sampleEnv sampleState ∧
    (confirmedSlots (runContract sampleEnv sampleState
      (submitAndProve (sampleBatch fun slot => BitVec.ofNat 8 (5 + slot)))).2).Pairwise
        List.Disjoint := by
  refine ⟨sampleState_deployed, ?_⟩
  refine (nullifier_consumed_once sampleEnv _ sampleState_deployed _).1 ?_
  intro c hc kind data hrec
  have hdata : kind = .tx ∧ data = sampleBatch fun slot => BitVec.ofNat 8 (5 + slot) := by
    simp only [submitAndProve, List.mem_cons, List.not_mem_nil, or_false] at hc
    rcases hc with rfl | rfl
    · simp [record] at hrec
    · simpa [record] using hrec
  obtain ⟨rfl, rfl⟩ := hdata
  decide +kernel

theorem ledger_invariant_sample : Deployed sampleEnv sampleState ∧
    (runContract sampleEnv sampleState (submitAndProve (sampleBatch fun _ => 5))).1.imt.leafCount =
      {pi | (runContract sampleEnv sampleState (submitAndProve (sampleBatch fun _ => 5))
        ).1.confirmedBatches .tx pi = true}.ncard +
      {pi | (runContract sampleEnv sampleState (submitAndProve (sampleBatch fun _ => 5))
        ).1.confirmedBatches .bridge pi = true}.ncard := by
  refine ⟨sampleState_deployed, ?_⟩
  exact (ledger_invariant sampleEnv _ sampleState_deployed _ _ _ (Prod.eta _).symm).2.1

end Doxa.Contract
