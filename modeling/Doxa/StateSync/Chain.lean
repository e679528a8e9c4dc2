import Doxa.Contract.Ledger
import Doxa.StateSync.State

/-!
# The chain state-sync reads

A chain history is what the blocks hold: the calls of the contract, block by block. Running
them gives the logs of each block, with the transaction a submission came from. The ABI
decoder that recovers the preimage from the input of that transaction is a parameter.

`ChainInv` collects what the contract guarantees about its logs: a batch is submitted once
and proven once, after it was submitted, and the proven batches carry the leaf indices
0, 1, 2, … and are the leaves of the tree.
-/

namespace Doxa.StateSync

open Lib Contract Function

/-- The kinds of batches, as the contract has them. -/
def BatchKind.ofContract : Contract.BatchKind → BatchKind
  | .tx => .transaction
  | .bridge => .bridgeTx

theorem BatchKind.ofContract_injective : Injective BatchKind.ofContract := by
  intro a b hab
  cases a <;> cases b <;> first | rfl | cases hab

theorem BatchKind.exists_ofContract (kind : BatchKind) : ∃ k, kind = .ofContract k := by
  cases kind with
  | transaction => exact ⟨.tx, rfl⟩
  | bridgeTx => exact ⟨.bridge, rfl⟩

/-- The logs the batches are synced from; a submission comes with its transaction. The other
events of the contract do not reach the mirrored tree. -/
inductive Log
  | submitted (kind : BatchKind) (piCommitment : Bytes32) (transaction : Call)
  | proven (kind : BatchKind) (piCommitment : Bytes32) (newTreeRoot : U256) (leafIndex : ℕ)
  | subpoolRootUpdated (newSubpoolRoot : U256)

structure Chain where
  env : Env
  /-- The contract as it was deployed. -/
  deployed : ContractState
  blocks : ℕ → List Call
  /-- `decode_tx_batch_calldata` and `decode_bridge_batch_calldata` of the input of the
  transaction that made a call. -/
  calldata : Call → Option (List (BitVec 8))

/-- The batch a call submits. -/
def submits (c : Call) : Option (Contract.BatchKind × Bytes) :=
  match c.op with
  | .submitTransactionBatch data => some (.tx, data)
  | .submitBridgeTxBatch data => some (.bridge, data)
  | _ => none

/-- The batch a call proves. -/
def proves (c : Call) : Option (Contract.BatchKind × Bytes) :=
  match c.op with
  | .proveTransactionBatch data _ => some (.tx, data)
  | .proveBridgeTxBatch data _ => some (.bridge, data)
  | _ => none

/-- The logs of a successful call between two states. -/
def emit (env : Env) (c : Call) (s s' : ContractState) : List Log :=
  match c.op with
  | .submitTransactionBatch data => [.submitted .transaction (piCommitment env data) c]
  | .submitBridgeTxBatch data => [.submitted .bridgeTx (piCommitment env data) c]
  | .proveTransactionBatch data _ =>
    [.proven .transaction (piCommitment env data) s'.imt.currentRoot s.imt.leafCount]
  | .proveBridgeTxBatch data _ =>
    [.proven .bridgeTx (piCommitment env data) s'.imt.currentRoot s.imt.leafCount]
  | .updateSubpoolRoot _ newSubpoolRoot _ => [.subpoolRootUpdated newSubpoolRoot]
  | _ => []

def emitStep (env : Env) (c : Call) (x : ContractState × List Log) :
    Except Error (ContractState × List Log) := do
  let s' ← step env c x.1
  return (s', x.2 ++ emit env c x.1 s')

namespace Chain

variable (chain : Chain)

/-- The contract and all logs before block `n`. -/
def before (n : ℕ) : ContractState × List Log :=
  run (emitStep chain.env) (chain.deployed, []) ((List.range n).flatMap chain.blocks)

/-- The logs of block `n`. -/
def logs (n : ℕ) : List Log :=
  (run (emitStep chain.env) ((chain.before n).1, []) (chain.blocks n)).2

/-- The leaves the contract has appended up to block `n`. -/
def leaves (n : ℕ) : List U256 :=
  (List.range (chain.before (n + 1)).1.imt.leafCount).map (chain.before (n + 1)).1.imt.leaves

end Chain

/-! ## The logs of a run -/

section Emit

variable {env : Env} {s : ContractState}

theorem emitStep_ok {c : Call} {s' : ContractState} {l : List Log} (h : step env c s = .ok s') :
    emitStep env c (s, l) = .ok (s', l ++ emit env c s s') := by
  unfold emitStep
  rw [h]
  rfl

theorem emitStep_error {c : Call} {e : Error} {l : List Log} (h : step env c s = .error e) :
    emitStep env c (s, l) = .error e := by
  unfold emitStep
  rw [h]
  rfl

/-- Earlier logs do not matter. -/
theorem run_emitStep (l : List Log) (calls : List Call) :
    run (emitStep env) (s, l) calls =
      ((run (emitStep env) (s, []) calls).1, l ++ (run (emitStep env) (s, []) calls).2) := by
  induction calls using List.reverseRecOn with
  | nil => rw [run_nil, run_nil, List.append_nil]
  | append_singleton calls c ih =>
    rw [run_concat, run_concat, ih]
    obtain ⟨t, m⟩ := run (emitStep env) (s, []) calls
    cases hstep : step env c t with
    | error e => rw [attempt_error (emitStep_error hstep), attempt_error (emitStep_error hstep)]
    | ok t' =>
      rw [attempt_ok (emitStep_ok hstep), attempt_ok (emitStep_ok hstep), List.append_assoc]

theorem Chain.before_succ (chain : Chain) (n : ℕ) :
    chain.before (n + 1) =
      ((run (emitStep chain.env) ((chain.before n).1, []) (chain.blocks n)).1,
        (chain.before n).2 ++ chain.logs n) := by
  unfold Chain.logs
  rw [Chain.before, List.range_succ, List.flatMap_append, List.flatMap_singleton, run_append]
  exact run_emitStep _ _

end Emit

/-! ## Submissions and proofs in the logs -/

structure Proven where
  kind : BatchKind
  piCommitment : Bytes32
  newTreeRoot : U256
  leafIndex : ℕ

/-- The submissions of one kind with their transactions. -/
def submissions (kind : BatchKind) (l : List Log) : List (Bytes32 × Call) :=
  l.filterMap fun
    | .submitted k pi c => if k = kind then some (pi, c) else none
    | _ => none

def provens (l : List Log) : List Proven :=
  l.filterMap fun
    | .proven kind pi root i => some ⟨kind, pi, root, i⟩
    | _ => none

@[simp] theorem submissions_append (kind : BatchKind) (l₁ l₂ : List Log) :
    submissions kind (l₁ ++ l₂) = submissions kind l₁ ++ submissions kind l₂ :=
  List.filterMap_append

@[simp] theorem provens_append (l₁ l₂ : List Log) :
    provens (l₁ ++ l₂) = provens l₁ ++ provens l₂ := List.filterMap_append

/-- What a call emits, by what it does to the ledger. -/
theorem emit_cases {env : Env} {c : Call} {s s' : ContractState} (h : step env c s = .ok s') :
    ((∀ kind, submissions kind (emit env c s s') = []) ∧ provens (emit env c s s') = [] ∧
      SameLedger s s') ∨
    (∃ k data, submits c = some (k, data) ∧
      emit env c s s' = [.submitted (.ofContract k) (piCommitment env data) c] ∧
      submitBatch env c.ctx k data s = .ok s') ∨
    ∃ k data, proves c = some (k, data) ∧
      emit env c s s' = [.proven (.ofContract k) (piCommitment env data) s'.imt.currentRoot
        s.imt.leafCount] ∧ Contract.Confirms env k data s s' := by
  have hcases := Contract.step_cases h
  obtain ⟨ctx, op⟩ := c
  cases op with
  | submitTransactionBatch b => exact .inr (.inl ⟨.tx, b, rfl, rfl, h⟩)
  | submitBridgeTxBatch b => exact .inr (.inl ⟨.bridge, b, rfl, rfl, h⟩)
  | proveTransactionBatch b p =>
    exact .inr (.inr ⟨.tx, b, rfl, rfl, (proveTransactionBatch_ok h).1⟩)
  | proveBridgeTxBatch b p => exact .inr (.inr ⟨.bridge, b, rfl, rfl, proveBridgeTxBatch_ok h⟩)
  | _ =>
    rcases hcases with ⟨-, hsame⟩ | ⟨_, _, hrecord, -⟩ | ⟨_, _, hrecord, -⟩
    · exact .inl ⟨fun _ => rfl, rfl, hsame⟩
    · cases hrecord
    · cases hrecord

/-! ## What the contract guarantees -/

def Proven.key (p : Proven) : BatchKind × Bytes32 := (p.kind, p.piCommitment)

/-- The calls of the history are those with `C`. -/
structure ChainInv (env : Env) (C : Call → Prop) (depth : ℕ) (x : ContractState × List Log) :
    Prop where
  treeDepth : x.1.treeDepth = depth
  room : x.1.imt.leafCount ≤ 2 ^ depth
  apart : ∀ k pi, x.1.pendingBatches k pi = true → x.1.confirmedBatches k pi = false
  known : ∀ k pi, pi ∈ (submissions (.ofContract k) x.2).map Prod.fst ↔
    x.1.pendingBatches k pi = true ∨ x.1.confirmedBatches k pi = true
  submittedOnce : ∀ kind, ((submissions kind x.2).map Prod.fst).Nodup
  origin : ∀ kind pi c, (pi, c) ∈ submissions kind x.2 →
    ∃ k data, C c ∧ submits c = some (k, data) ∧ piCommitment env data = pi ∧ .ofContract k = kind
  confirmed : ∀ k pi, x.1.confirmedBatches k pi = true ↔
    (.ofContract k, pi) ∈ (provens x.2).map Proven.key
  provenOnce : ((provens x.2).map Proven.key).Nodup
  indices : (provens x.2).map Proven.leafIndex = List.range x.1.imt.leafCount
  leaves : ∀ j p, (provens x.2)[j]? = some p → ∃ c k data, C c ∧ proves c = some (k, data) ∧
    piCommitment env data = p.piCommitment ∧ x.1.imt.leaves j = batchRoot data

section Guarantees

variable {env : Env} {C : Call → Prop} {depth : ℕ} {s s' : ContractState} {l : List Log} {c : Call}

theorem submissions_singleton (kind k : BatchKind) (pi : Bytes32) (c : Call) :
    submissions kind [.submitted k pi c] = if k = kind then [(pi, c)] else [] := by
  by_cases hk : k = kind
  · rw [if_pos hk]
    simp [submissions, hk]
  · rw [if_neg hk]
    simp [submissions, hk]

theorem submissions_proven (kind k : BatchKind) (pi : Bytes32) (root : U256) (i : ℕ) :
    submissions kind [.proven k pi root i] = [] := rfl

theorem provens_submitted (k : BatchKind) (pi : Bytes32) (c : Call) :
    provens [.submitted k pi c] = [] := rfl

theorem provens_proven (k : BatchKind) (pi : Bytes32) (root : U256) (i : ℕ) :
    provens [.proven k pi root i] = [⟨k, pi, root, i⟩] := rfl

theorem chainInv_submit {ctx : Ctx} {k : Contract.BatchKind} {data : Bytes}
    (hinv : ChainInv env C depth (s, l)) (hC : C c) (hsubmits : submits c = some (k, data))
    (h : submitBatch env ctx k data s = .ok s') :
    ChainInv env C depth (s', l ++ [.submitted (.ofContract k) (piCommitment env data) c]) := by
  obtain ⟨-, hconfirmed, hpending, rfl⟩ := submitBatch_ok h
  have hnew : piCommitment env data ∉ (submissions (.ofContract k) l).map Prod.fst := by
    rw [hinv.known, hconfirmed, hpending]
    simp
  refine ⟨hinv.treeDepth, hinv.room, ?_, ?_, ?_, ?_, ?_, ?_, ?_, ?_⟩
  · intro k' pi hpi
    rcases update_update_true.mp hpi with hpi | ⟨rfl, rfl⟩
    · exact hinv.apart k' pi hpi
    · exact hconfirmed
  · intro k' pi
    rw [submissions_append, List.map_append, List.mem_append, hinv.known, update_update_true,
      submissions_singleton]
    by_cases hk : k = k'
    · subst hk
      rw [if_pos rfl]
      simp only [List.map_cons, List.map_nil, List.mem_singleton, true_and, eq_comm (a := pi)]
      tauto
    · rw [if_neg fun heq => hk (BatchKind.ofContract_injective heq)]
      simp [hk]
  · intro kind
    rw [submissions_append, List.map_append, submissions_singleton]
    split
    · rename_i hk
      subst hk
      exact (hinv.submittedOnce _).append (List.nodup_singleton _)
        (List.disjoint_singleton.mpr hnew)
    · rw [List.map_nil, List.append_nil]
      exact hinv.submittedOnce kind
  · intro kind pi c' hmem
    rw [submissions_append, List.mem_append, submissions_singleton] at hmem
    rcases hmem with hmem | hmem
    · exact hinv.origin kind pi c' hmem
    · split at hmem
      · rename_i hkind
        cases List.mem_singleton.mp hmem
        exact ⟨k, data, hC, hsubmits, rfl, hkind⟩
      · cases hmem
  all_goals
    rw [provens_append, provens_submitted, List.append_nil]
  · exact hinv.confirmed
  · exact hinv.provenOnce
  · exact hinv.indices
  · exact hinv.leaves

theorem chainInv_prove {k : Contract.BatchKind} {data : Bytes} {root : U256}
    (hinv : ChainInv env C depth (s, l)) (hC : C c) (hproves : proves c = some (k, data))
    (h : Contract.Confirms env k data s s') :
    ChainInv env C depth (s', l ++ [.proven (.ofContract k) (piCommitment env data) root
      s.imt.leafCount]) := by
  have hnot := hinv.apart _ _ h.pending
  have hnew : (BatchKind.ofContract k, piCommitment env data) ∉ (provens l).map Proven.key := by
    rw [← hinv.confirmed, hnot]
    simp
  have hlength : (provens l).length = s.imt.leafCount := by
    have hindices := congrArg List.length hinv.indices
    rwa [List.length_map, List.length_range] at hindices
  obtain ⟨hroom, -⟩ := appendLeaf_ok h.appended
  have hdepth : s.treeDepth = depth := hinv.treeDepth
  refine ⟨h.treeDepth.trans hinv.treeDepth, ?_, ?_, ?_, ?_, ?_, ?_, ?_, ?_, ?_⟩
  · rw [appendLeaf_leafCount h.appended, ← hdepth]
    exact hroom
  · intro k' pi hpi
    rw [h.pendingBatches] at hpi
    obtain ⟨hpi, hother⟩ := update_update_false.mp hpi
    rw [h.confirmedBatches, Bool.eq_false_iff]
    intro hconf
    rcases update_update_true.mp hconf with hconf | hconf
    · rw [hinv.apart k' pi hpi] at hconf
      cases hconf
    · exact hother hconf
  · intro k' pi
    rw [submissions_append, submissions_proven, List.append_nil, hinv.known, h.pendingBatches,
      h.confirmedBatches, update_update_true, update_update_false]
    constructor
    · rintro (hp | hc)
      · by_cases heq : k = k' ∧ piCommitment env data = pi
        · exact .inr (.inr heq)
        · exact .inl ⟨hp, heq⟩
      · exact .inr (.inl hc)
    · rintro (⟨hp, -⟩ | hc | ⟨rfl, rfl⟩)
      · exact .inl hp
      · exact .inr hc
      · exact .inl h.pending
  · intro kind
    rw [submissions_append, submissions_proven, List.append_nil]
    exact hinv.submittedOnce kind
  · intro kind pi c' hmem
    rw [submissions_append, submissions_proven, List.append_nil] at hmem
    exact hinv.origin kind pi c' hmem
  · intro k' pi
    rw [provens_append, provens_proven, List.map_append, List.mem_append, h.confirmedBatches,
      update_update_true, hinv.confirmed, List.map_singleton, List.mem_singleton]
    refine or_congr_right ?_
    rw [Proven.key, Prod.mk.injEq, BatchKind.ofContract_injective.eq_iff, eq_comm (a := k'),
      eq_comm (a := pi)]
  · rw [provens_append, provens_proven, List.map_append]
    exact hinv.provenOnce.append (List.nodup_singleton _) (List.disjoint_singleton.mpr hnew)
  · rw [provens_append, provens_proven, List.map_append, hinv.indices,
      appendLeaf_leafCount h.appended, List.range_succ]
    rfl
  · intro j p hp
    rw [provens_append, provens_proven] at hp
    rw [appendLeaf_leaves h.appended]
    rcases Nat.lt_or_ge j (provens l).length with hj | hj
    · rw [List.getElem?_append_left hj] at hp
      rw [update_of_ne (by omega)]
      exact hinv.leaves j p hp
    · rw [List.getElem?_append_right hj, List.getElem?_singleton] at hp
      split at hp
      · cases hp
        have hj' : j = s.imt.leafCount := by omega
        rw [hj', update_self]
        exact ⟨c, k, data, hC, hproves, rfl, rfl⟩
      · cases hp

theorem chainInv_same (hinv : ChainInv env C depth (s, l)) {new : List Log}
    (hsubmissions : ∀ kind, submissions kind new = []) (hprovens : provens new = [])
    (h : SameLedger s s') : ChainInv env C depth (s', l ++ new) := by
  refine ⟨h.treeDepth.trans hinv.treeDepth, ?_, ?_, fun k pi => ?_, fun kind => ?_,
    fun kind pi c hmem => ?_, fun k pi => ?_, ?_, ?_, ?_⟩
  · rw [h.imt]
    exact hinv.room
  · rw [h.pendingBatches, h.confirmedBatches]
    exact hinv.apart
  · rw [submissions_append, hsubmissions, List.append_nil, h.pendingBatches, h.confirmedBatches]
    exact hinv.known k pi
  · rw [submissions_append, hsubmissions, List.append_nil]
    exact hinv.submittedOnce kind
  · rw [submissions_append, hsubmissions, List.append_nil] at hmem
    exact hinv.origin kind pi c hmem
  · rw [provens_append, hprovens, List.append_nil, h.confirmedBatches]
    exact hinv.confirmed k pi
  · rw [provens_append, hprovens, List.append_nil]
    exact hinv.provenOnce
  · rw [provens_append, hprovens, List.append_nil, h.imt]
    exact hinv.indices
  · rw [provens_append, hprovens, List.append_nil, h.imt]
    exact hinv.leaves

theorem emitStep_chainInv {x x' : ContractState × List Log} (hinv : ChainInv env C depth x)
    (hC : C c) (h : emitStep env c x = .ok x') : ChainInv env C depth x' := by
  obtain ⟨s, l⟩ := x
  cases hstep : step env c s with
  | error e =>
    rw [emitStep_error hstep] at h
    cases h
  | ok s' =>
    rw [emitStep_ok hstep] at h
    cases h
    rcases emit_cases hstep with ⟨hsubmissions, hprovens, hsame⟩ |
      ⟨k, data, hsubmits, hemit, hsubmit⟩ | ⟨k, data, hproves, hemit, hconfirms⟩
    · exact chainInv_same hinv hsubmissions hprovens hsame
    · rw [hemit]
      exact chainInv_submit hinv hC hsubmits hsubmit
    · rw [hemit]
      exact chainInv_prove hinv hC hproves hconfirms

theorem chainInv_deployed (h : Deployed env s) : ChainInv env C s.treeDepth (s, []) := by
  obtain ⟨himt, -, hpending, hconfirmed, -⟩ := deployed_state h
  refine ⟨rfl, ?_, ?_, ?_, fun _ => List.nodup_nil, ?_, ?_, List.nodup_nil, ?_, ?_⟩
  · rw [himt]
    exact Nat.zero_le _
  · intro k pi hpi
    rw [hpending] at hpi
    cases hpi
  · intro k pi
    rw [hpending, hconfirmed]
    simp [submissions]
  · intro kind pi c hmem
    cases hmem
  · intro k pi
    rw [hconfirmed]
    simp [provens]
  · rw [himt]
    rfl
  · intro j p hp
    cases hp

end Guarantees

/-- A call of the history. -/
def Chain.Has (chain : Chain) (c : Call) : Prop := ∃ n, c ∈ chain.blocks n

theorem Chain.before_inv (chain : Chain) (h : Deployed chain.env chain.deployed) (n : ℕ) :
    ChainInv chain.env chain.Has chain.deployed.treeDepth (chain.before n) := by
  refine run_inv _ (ChainInv chain.env chain.Has chain.deployed.treeDepth) (chainInv_deployed h) ?_
  intro c hc x x' hinv hstep
  obtain ⟨m, -, hm⟩ := List.mem_flatMap.mp hc
  exact emitStep_chainInv hinv ⟨m, hm⟩ hstep

end Doxa.StateSync
