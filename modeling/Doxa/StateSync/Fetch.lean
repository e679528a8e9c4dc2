import Mathlib.Data.List.Perm.Subperm
import Doxa.StateSync.Poll

/-!
# What the node returns

The logs of a range of blocks are the ones between two points of the history, page by page or
at once. So `fetch_logs` either returns all logs of its event in the range or fails at one of
its pages, and the proven batches, sorted by leaf index, are those of the range in the order
of the chain.
-/

namespace Doxa.StateSync

open Lib Contract Function

/-! ## Ranges of blocks -/

section Ranges

variable (chain : Chain)

theorem Chain.before_logs (n : ℕ) : (chain.before n).2 = (List.range n).flatMap chain.logs := by
  induction n with
  | zero => rfl
  | succ n ih =>
    rw [chain.before_succ, ih, List.range_succ, List.flatMap_append, List.flatMap_singleton]

theorem Chain.logsIn_of_lt {fromBlock toBlock : ℕ} (h : toBlock < fromBlock) :
    chain.logsIn fromBlock toBlock = [] := by
  unfold Chain.logsIn
  rw [Nat.sub_eq_zero_of_le h]
  rfl

theorem Chain.logsIn_append {a b c : ℕ} (hab : a ≤ b + 1) (hbc : b ≤ c) :
    chain.logsIn a b ++ chain.logsIn (b + 1) c = chain.logsIn a c := by
  unfold Chain.logsIn
  have hstart : a + (b + 1 - a) = b + 1 := by omega
  have hlength : b + 1 - a + (c + 1 - (b + 1)) = c + 1 - a := by omega
  rw [← List.flatMap_append, ← hlength, ← List.range'_append_1, hstart]

theorem Chain.getLogs_append (event : EventKind) {a b c : ℕ} (hab : a ≤ b + 1) (hbc : b ≤ c) :
    chain.getLogs event a b ++ chain.getLogs event (b + 1) c = chain.getLogs event a c := by
  unfold Chain.getLogs
  rw [← List.filter_append, chain.logsIn_append hab hbc]

/-- The history up to the end of a range. -/
theorem Chain.before_logsIn (fromBlock toBlock : ℕ) :
    (chain.before fromBlock).2 ++ chain.logsIn fromBlock toBlock =
      (chain.before (max fromBlock (toBlock + 1))).2 := by
  rcases Nat.lt_or_ge toBlock fromBlock with h | h
  · rw [chain.logsIn_of_lt h, List.append_nil, max_eq_left h]
  · have hlength : fromBlock + (toBlock + 1 - fromBlock) = toBlock + 1 := by omega
    rw [max_eq_right (by omega), chain.before_logs, chain.before_logs, Chain.logsIn,
      ← List.flatMap_append, List.range_eq_range', List.range_eq_range', ← hlength,
      ← List.range'_append_1, Nat.zero_add, hlength]

theorem Chain.submissions_before (kind : BatchKind) (fromBlock toBlock : ℕ) :
    submissions kind (chain.before (max fromBlock (toBlock + 1))).2 =
      submissions kind (chain.before fromBlock).2 ++
        submissions kind (chain.logsIn fromBlock toBlock) := by
  rw [← chain.before_logsIn, submissions_append]

theorem Chain.provens_before (fromBlock toBlock : ℕ) :
    provens (chain.before (max fromBlock (toBlock + 1))).2 =
      provens (chain.before fromBlock).2 ++ provens (chain.logsIn fromBlock toBlock) := by
  rw [← chain.before_logsIn, provens_append]

end Ranges

/-! ## The logs of one event -/

theorem submissions_filter (kind : BatchKind) (l : List Log) :
    submissions kind (l.filter fun log => log.event = .submitted kind) = submissions kind l := by
  unfold submissions
  rw [List.filterMap_filter]
  refine List.filterMap_congr fun log _ => ?_
  cases log with
  | submitted k pi c =>
    by_cases hk : k = kind
    · simp [Log.event, hk]
    · simp [Log.event, hk]
  | proven k pi root i => simp [Log.event]
  | subpoolRootUpdated root => simp [Log.event]

theorem provens_filter (kind : BatchKind) (l : List Log) :
    provens (l.filter fun log => log.event = .proven kind) =
      (provens l).filter fun p => p.kind = kind := by
  unfold provens
  rw [List.filterMap_filter, List.filter_filterMap]
  refine List.filterMap_congr fun log _ => ?_
  cases log with
  | submitted k pi c => simp [Log.event]
  | proven k pi root i => simp [Log.event, Option.filter_some]
  | subpoolRootUpdated root => simp [Log.event]

/-! ## Pages -/

section Pages

variable (chunkBlocks : ℕ) (poll : Poll)

/-- All pages of a range were returned. -/
def Fetched (event : EventKind) (fromBlock toBlock : ℕ) : Prop :=
  ∀ i, fromBlock + i * chunkBlocks ≤ toBlock → poll.rpc (.getLogs event
    (fromBlock + i * chunkBlocks) (min (fromBlock + i * chunkBlocks + chunkBlocks - 1) toBlock))

theorem fetched_of_lt {event : EventKind} {fromBlock toBlock : ℕ} (h : toBlock < fromBlock) :
    Fetched chunkBlocks poll event fromBlock toBlock := by
  intro i hi
  omega

/-- The first page and the rest. -/
theorem fetched_iff (hchunk : 0 < chunkBlocks) {event : EventKind} {fromBlock toBlock : ℕ}
    (h : fromBlock ≤ toBlock) :
    Fetched chunkBlocks poll event fromBlock toBlock ↔
      poll.rpc (.getLogs event fromBlock (min (fromBlock + chunkBlocks - 1) toBlock)) ∧
      Fetched chunkBlocks poll event (min (fromBlock + chunkBlocks - 1) toBlock + 1) toBlock := by
  have hnext : min (fromBlock + chunkBlocks - 1) toBlock < toBlock →
      min (fromBlock + chunkBlocks - 1) toBlock + 1 = fromBlock + chunkBlocks := by omega
  constructor
  · intro hall
    refine ⟨?_, fun i hi => ?_⟩
    · have hfirst := hall 0
      rw [Nat.zero_mul, Nat.add_zero] at hfirst
      exact hfirst h
    · rw [hnext (by omega), Nat.add_assoc, Nat.add_comm chunkBlocks, ← Nat.succ_mul] at hi ⊢
      exact hall (i + 1) hi
  · rintro ⟨hfirst, hrest⟩ i hi
    cases i with
    | zero =>
      rw [Nat.zero_mul, Nat.add_zero]
      exact hfirst
    | succ i =>
      rw [Nat.succ_mul, Nat.add_comm (i * chunkBlocks), ← Nat.add_assoc] at hi ⊢
      have hlast := hnext (by omega)
      rw [← hlast] at hi ⊢
      exact hrest i hi

variable (chain : Chain)

theorem call_true {c : RpcCall} (h : poll.rpc c = true) : call poll c = pure () := by
  rw [call, if_pos h]

theorem call_false {c : RpcCall} (h : poll.rpc c = false) : call poll c = Program.fail .rpc := by
  rw [call, if_neg (by rw [h]; decide)]

theorem fetchPage_true {event : EventKind} {chunkStart chunkEnd : ℕ}
    (h : poll.rpc (.getLogs event chunkStart chunkEnd) = true) :
    fetchPage chain poll event chunkStart chunkEnd =
      pure (chain.getLogs event chunkStart chunkEnd) := by
  rw [fetchPage, call_true poll h, Program.pure_bind]

theorem fetchPage_false {event : EventKind} {chunkStart chunkEnd : ℕ}
    (h : poll.rpc (.getLogs event chunkStart chunkEnd) = false) :
    fetchPage chain poll event chunkStart chunkEnd = Program.fail .rpc := by
  rw [fetchPage, call_false poll h, Program.fail_bind]

/-- The pages from some point of the range on. -/
theorem pages_cases (hchunk : 0 < chunkBlocks) (event : EventKind) (toBlock : ℕ) {fuel : ℕ}
    {chunkStart : ℕ} (hfuel : toBlock + 1 - chunkStart ≤ fuel) :
    (Fetched chunkBlocks poll event chunkStart toBlock ∧
      pages chunkBlocks (fetchPage chain poll event) toBlock fuel chunkStart =
        pure (chain.getLogs event chunkStart toBlock)) ∨
    (¬ Fetched chunkBlocks poll event chunkStart toBlock ∧
      pages chunkBlocks (fetchPage chain poll event) toBlock fuel chunkStart =
        Program.fail .rpc) := by
  have hpast : ∀ {start : ℕ}, toBlock < start → Fetched chunkBlocks poll event start toBlock ∧
      chain.getLogs event start toBlock = [] := by
    intro start hstart
    refine ⟨fetched_of_lt chunkBlocks poll hstart, ?_⟩
    rw [Chain.getLogs, chain.logsIn_of_lt hstart]
    rfl
  induction fuel generalizing chunkStart with
  | zero =>
    obtain ⟨hfetched, hnone⟩ := @hpast chunkStart (by omega)
    exact .inl ⟨hfetched, by rw [hnone]; rfl⟩
  | succ fuel ih =>
    rw [pages]
    split
    · rename_i hle
      rw [fetched_iff chunkBlocks poll hchunk hle]
      -- the blocks of the first page
      generalize hend : min (chunkStart + chunkBlocks - 1) toBlock = chunkEnd
      dsimp only
      cases hrpc : poll.rpc (.getLogs event chunkStart chunkEnd) with
      | true =>
        rw [fetchPage_true poll chain hrpc, Program.pure_bind]
        have hle' : toBlock + 1 - (chunkEnd + 1) ≤ fuel := by omega
        rcases ih hle' with ⟨hrest, heq⟩ | ⟨hrest, heq⟩
        · refine .inl ⟨⟨rfl, hrest⟩, ?_⟩
          rw [heq, Program.pure_bind, chain.getLogs_append event (by omega) (by omega)]
        · refine .inr ⟨fun hall => hrest hall.2, ?_⟩
          rw [heq, Program.fail_bind]
      | false =>
        refine .inr ⟨fun hall => ?_, ?_⟩
        · cases hall.1
        · rw [fetchPage_false poll chain hrpc, Program.fail_bind]
    · obtain ⟨hfetched, hnone⟩ := @hpast chunkStart (by omega)
      exact .inl ⟨hfetched, by rw [hnone]⟩

/-- A fetch returns every log of the range or fails, and never changes the state. -/
theorem fetchLogs_cases (hchunk : 0 < chunkBlocks) (event : EventKind) (fromBlock toBlock : ℕ) :
    (Fetched chunkBlocks poll event fromBlock toBlock ∧
      fetchLogs chain chunkBlocks poll event fromBlock toBlock =
        pure (chain.getLogs event fromBlock toBlock)) ∨
    (¬ Fetched chunkBlocks poll event fromBlock toBlock ∧
      fetchLogs chain chunkBlocks poll event fromBlock toBlock = Program.fail .rpc) :=
  pages_cases chunkBlocks poll chain hchunk event toBlock le_rfl

variable {P : StateSyncState → Prop} {E : SyncError → StateSyncState → Prop}

/-- A fetch in front of a program. -/
theorem triple_fetchLogs {β : Type} {R : β → StateSyncState → Prop}
    {f : List Log → SyncProgram β} {event : EventKind} {fromBlock toBlock : ℕ}
    (hchunk : 0 < chunkBlocks)
    (hf : Fetched chunkBlocks poll event fromBlock toBlock →
      Program.Triple P (f (chain.getLogs event fromBlock toBlock)) R E)
    (hE : ¬ Fetched chunkBlocks poll event fromBlock toBlock → ∀ s, P s → E .rpc s) :
    Program.Triple P (fetchLogs chain chunkBlocks poll event fromBlock toBlock >>= f) R E := by
  rcases fetchLogs_cases chunkBlocks poll chain hchunk event fromBlock toBlock with
    ⟨hfetched, heq⟩ | ⟨hfetched, heq⟩
  · rw [heq, Program.pure_bind]
    exact hf hfetched
  · rw [heq, Program.fail_bind]
    exact Program.triple_fail (hE hfetched)

theorem triple_call {β : Type} {R : β → StateSyncState → Prop} {f : Unit → SyncProgram β}
    {c : RpcCall} (hf : poll.rpc c = true → Program.Triple P (f ()) R E)
    (hE : poll.rpc c = false → ∀ s, P s → E .rpc s) :
    Program.Triple P (call poll c >>= f) R E := by
  cases hrpc : poll.rpc c with
  | true =>
    rw [call_true poll hrpc, Program.pure_bind]
    exact hf hrpc
  | false =>
    rw [call_false poll hrpc, Program.fail_bind]
    exact Program.triple_fail (hE hrpc)

end Pages

/-! ## Submissions and proven batches -/

/-- Every commitment is submitted once, so no log replaces another. -/
theorem submitMap_of_nodup {entries : List (Bytes32 × Call)}
    (h : (entries.map Prod.fst).Nodup) : submitMap entries = entries := by
  induction entries using List.reverseRecOn with
  | nil => rfl
  | append_singleton entries e ih =>
    rw [List.map_append, List.map_singleton, List.nodup_append] at h
    obtain ⟨hinit, -, hnew⟩ := h
    have hkeep : entries.filter (fun x => x.1 ≠ e.1) = entries := by
      refine List.filter_eq_self.mpr fun x hx => decide_eq_true ?_
      exact hnew x.1 (List.mem_map_of_mem hx) e.1 List.mem_cons_self
    unfold submitMap at ih ⊢
    rw [List.foldl_append, ih hinit, List.foldl_cons, List.foldl_nil, hkeep]

theorem decodeProvenLog_leafIndex {p : Proven} {entry : ProvenBatchEntry}
    (h : decodeProvenLog p = some entry) : entry.leafIndex = p.leafIndex := by
  obtain ⟨root, -, rfl⟩ := Option.map_eq_some_iff.mp h
  rfl

theorem decode_pairwise {ps : List Proven}
    (h : ps.Pairwise fun p q => p.leafIndex < q.leafIndex) :
    (ps.filterMap decodeProvenLog).Pairwise fun a b => a.leafIndex < b.leafIndex := by
  refine h.filterMap _ fun p q hpq a ha b hb => ?_
  rw [decodeProvenLog_leafIndex ha, decodeProvenLog_leafIndex hb]
  exact hpq

/-- The batches of both kinds, sorted, are in the order of the chain. -/
theorem sortByLeafIndex_provens {ps : List Proven}
    (h : ps.Pairwise fun p q => p.leafIndex < q.leafIndex) :
    sortByLeafIndex ((ps.filter fun p => p.kind = .transaction).filterMap decodeProvenLog ++
      (ps.filter fun p => p.kind = .bridgeTx).filterMap decodeProvenLog) =
        ps.filterMap decodeProvenLog := by
  have hkinds : (ps.filter fun p => p.kind = .bridgeTx) =
      ps.filter fun p => !decide (p.kind = .transaction) := by
    refine List.filter_congr fun p _ => ?_
    cases p.kind <;> rfl
  have hperm : ((ps.filter fun p => p.kind = .transaction).filterMap decodeProvenLog ++
      (ps.filter fun p => p.kind = .bridgeTx).filterMap decodeProvenLog).Perm
        (ps.filterMap decodeProvenLog) := by
    rw [← List.filterMap_append, hkinds]
    exact (List.filter_append_perm _ ps).filterMap _
  have hsorted := decode_pairwise h
  have hnodup : ((ps.filterMap decodeProvenLog).map ProvenBatchEntry.leafIndex).Nodup :=
    (List.pairwise_map.mpr hsorted).imp Nat.ne_of_lt
  unfold sortByLeafIndex
  refine List.Perm.eq_of_pairwise ?_ (List.pairwise_mergeSort ?_ ?_ _) ?_
    ((List.mergeSort_perm _ _).trans hperm)
  · intro a b ha hb hab hba
    have ha' := hperm.subset (List.mem_mergeSort.mp ha)
    rw [decide_eq_true_iff] at hab hba
    exact List.inj_on_of_nodup_map hnodup ha' hb (Nat.le_antisymm hab hba)
  · intro a b c hab hbc
    rw [decide_eq_true_iff] at hab hbc ⊢
    exact hab.trans hbc
  · intro a b
    rw [Bool.or_eq_true, decide_eq_true_iff, decide_eq_true_iff]
    exact Nat.le_total a.leafIndex b.leafIndex
  · exact hsorted.imp fun hab => decide_eq_true hab.le

end Doxa.StateSync
