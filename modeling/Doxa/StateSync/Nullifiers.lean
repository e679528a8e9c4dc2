import Doxa.StateSync.Entries
import Doxa.StateSync.Steps

/-!
# The status of nullifiers

A pending nullifier is kept with one `pi_commitment`, the one under which it was applied last;
`confirm_batch` promotes the nullifiers kept under the commitment it confirms. So a status
Confirmed always comes from a confirmed batch, but a nullifier that a later pending batch
applied again is not promoted with the earlier batch.

`NullifierInv` relates the two maps to the record of a run, and `complete_confirms_iff` says
when a confirmation keeps the index complete.
-/

namespace Doxa.StateSync

open Lib Trees Contract Function

/-! ## The record -/

/-- `b` was applied under `pi`, which was confirmed afterwards. -/
def ConfirmedBatch (log : List Entry) (pi : Bytes32) (b : ParsedBatch) : Prop :=
  ∃ before after, log = before ++ .confirmed pi :: after ∧ .applied pi b ∈ before

/-- `n` is a nullifier of a real slot of a confirmed batch. -/
def Spent (log : List Entry) (n : HashOut) : Prop :=
  ∃ pi b, ConfirmedBatch log pi b ∧ n ∈ b.nullifiers

/-- The commitment under which `n` was applied last. -/
def lastPi (n : HashOut) (log : List Entry) : Option Bytes32 :=
  log.foldl (fun last entry =>
    match entry with
    | .applied pi b => if n ∈ b.nullifiers then some pi else last
    | .confirmed _ => last) none

section Record

variable {log : List Entry} {pi q : Bytes32} {b b' : ParsedBatch} {n : HashOut}

theorem lastPi_applied : lastPi n (log ++ [.applied pi b]) =
    if n ∈ b.nullifiers then some pi else lastPi n log := by
  simp only [lastPi, List.foldl_append, List.foldl_cons, List.foldl_nil]

theorem lastPi_confirmed : lastPi n (log ++ [.confirmed pi]) = lastPi n log := by
  simp only [lastPi, List.foldl_append, List.foldl_cons, List.foldl_nil]

/-- Some batch applied the nullifier last. -/
theorem exists_of_lastPi (h : lastPi n log = some pi) :
    ∃ b, .applied pi b ∈ log ∧ n ∈ b.nullifiers := by
  induction log using List.reverseRecOn with
  | nil => cases h
  | append_singleton log entry ih =>
    cases entry with
    | applied q b =>
      rw [lastPi_applied] at h
      split at h
      · rename_i hn
        cases h
        exact ⟨b, List.mem_append_right _ (List.mem_singleton_self _), hn⟩
      · obtain ⟨b', hb', hn⟩ := ih h
        exact ⟨b', List.mem_append_left _ hb', hn⟩
    | confirmed q =>
      rw [lastPi_confirmed] at h
      obtain ⟨b', hb', hn⟩ := ih h
      exact ⟨b', List.mem_append_left _ hb', hn⟩

theorem ConfirmedBatch.append (h : ConfirmedBatch log pi b) (entries : List Entry) :
    ConfirmedBatch (log ++ entries) pi b := by
  obtain ⟨before, after, rfl, hmem⟩ := h
  exact ⟨before, after ++ entries, by rw [List.append_assoc, List.cons_append], hmem⟩

/-- Applying a batch confirms none. -/
theorem confirmedBatch_applied :
    ConfirmedBatch (log ++ [.applied q b']) pi b ↔ ConfirmedBatch log pi b := by
  constructor
  · rintro ⟨before, after, heq, hmem⟩
    rcases List.eq_nil_or_concat after with rfl | ⟨after, entry, rfl⟩
    · obtain ⟨-, hlast⟩ := List.append_inj' heq rfl
      cases hlast
    · rw [List.concat_eq_append, ← List.cons_append, ← List.append_assoc] at heq
      exact ⟨before, after, (List.append_inj' heq rfl).1, hmem⟩
  · intro h
    exact h.append _

/-- Confirming `q` confirms the batches applied under it. -/
theorem confirmedBatch_confirmed : ConfirmedBatch (log ++ [.confirmed q]) pi b ↔
    ConfirmedBatch log pi b ∨ (pi = q ∧ .applied pi b ∈ log) := by
  constructor
  · rintro ⟨before, after, heq, hmem⟩
    rcases List.eq_nil_or_concat after with rfl | ⟨after, entry, rfl⟩
    · obtain ⟨rfl, hlast⟩ := List.append_inj' heq rfl
      cases hlast
      exact .inr ⟨rfl, hmem⟩
    · rw [List.concat_eq_append, ← List.cons_append, ← List.append_assoc] at heq
      exact .inl ⟨before, after, (List.append_inj' heq rfl).1, hmem⟩
  · rintro (h | ⟨rfl, hmem⟩)
    · exact h.append _
    · exact ⟨log, [], rfl, hmem⟩

end Record

/-! ## What the maps hold -/

section Inv

variable {perm : State → State} {s s' : StateSyncState} {log : List Entry} {n : HashOut}
  {kind : BatchKind} {preimage : List (BitVec 8)} {pi : Bytes32} {b : ParsedBatch} {r : HashOut}

structure NullifierInv (s : StateSyncState) (log : List Entry) : Prop where
  /-- A pending nullifier is kept under the commitment that applied it last. -/
  pending : ∀ n pi, s.pendingNullifiers n = some pi → lastPi n log = some pi
  /-- A nullifier leaves the map only when it is confirmed. -/
  kept : ∀ n pi, lastPi n log = some pi →
    s.pendingNullifiers n = some pi ∨ s.confirmedNullifiers n = true
  spent : ∀ n, s.confirmedNullifiers n = true → Spent log n

theorem Applies.nullifierInv (h : Applies kind preimage pi b s s') (hinv : NullifierInv s log) :
    NullifierInv s' (log ++ [.applied pi b]) := by
  refine ⟨fun n q => ?_, fun n q => ?_, fun n hn => ?_⟩
  · rw [h.nullifiers, lastPi_applied]
    split
    · exact id
    · exact hinv.pending n q
  · rw [h.nullifiers, lastPi_applied, h.confirmedNullifiers]
    split
    · exact .inl
    · exact hinv.kept n q
  · rw [h.confirmedNullifiers] at hn
    obtain ⟨q, b', hb', hmem⟩ := hinv.spent n hn
    exact ⟨q, b', hb'.append _, hmem⟩

theorem Confirms.nullifierInv (h : Confirms perm pi r s s') (hinv : NullifierInv s log) :
    NullifierInv s' (log ++ [.confirmed pi]) := by
  refine ⟨fun n q => ?_, fun n q => ?_, fun n hn => ?_⟩
  · rw [h.pendingNullifiers, lastPi_confirmed]
    split
    · intro hnone
      cases hnone
    · exact hinv.pending n q
  · rw [h.pendingNullifiers, lastPi_confirmed, h.confirmedNullifiers]
    intro hlast
    rcases hinv.kept n q hlast with hpending | hconfirmed
    · by_cases hq : q = pi
      · exact .inr (.inr (hq ▸ hpending))
      · rw [if_neg (by rw [hpending]; exact fun heq => hq (Option.some.inj heq))]
        exact .inl hpending
    · exact .inr (.inl hconfirmed)
  · rcases (h.confirmedNullifiers n).mp hn with hn | hn
    · obtain ⟨q, b', hb', hmem⟩ := hinv.spent n hn
      exact ⟨q, b', hb'.append _, hmem⟩
    · obtain ⟨b', hb', hmem⟩ := exists_of_lastPi (hinv.pending n pi hn)
      exact ⟨pi, b', confirmedBatch_confirmed.mpr (.inr ⟨rfl, hb'⟩), hmem⟩

theorem new_nullifierInv {depth : ℕ} (h : StateSyncState.new perm depth = .ok s) :
    NullifierInv s [] := by
  obtain ⟨t, -, h⟩ := bind_eq_ok.mp h
  obtain ⟨root, -, h⟩ := bind_eq_ok.mp h
  cases h
  refine ⟨fun n q hq => ?_, fun n q hq => ?_, fun n hn => ?_⟩
  · cases hq
  · cases hq
  · cases hn

theorem nullifierInv_of_run {depth : ℕ} (h : StateSyncState.new perm depth = .ok s)
    (ops : List Op) : NullifierInv (runLog (step perm) record s ops).1
      (runLog (step perm) record s ops).2 := by
  refine runLog_inv _ _ _ _ NullifierInv (new_nullifierInv h) ?_
  intro op _ t t' log hinv hstep
  rcases step_cases hstep with
    ⟨kind, preimage, pi, b, rfl, hb, hrecord, happlies⟩ | ⟨pi, r, root, rfl, hrecord, hconfirms⟩
  · rw [hrecord]
    exact happlies.nullifierInv hinv
  · rw [hrecord]
    exact hconfirms.nullifierInv hinv

theorem getNullifierStatus_eq_confirmed :
    s.getNullifierStatus n = .confirmed ↔ s.confirmedNullifiers n = true := by
  unfold StateSyncState.getNullifierStatus
  split
  · rename_i hn
    exact ⟨fun _ => hn, fun _ => rfl⟩
  · rename_i hn
    refine ⟨fun h => ?_, fun h => absurd h hn⟩
    split at h
    · cases h
    · cases h

/-! ## Completeness -/

/-- Every nullifier of a confirmed batch is reported Confirmed. -/
def NullifiersComplete (s : StateSyncState) (log : List Entry) : Prop :=
  ∀ n, Spent log n → s.getNullifierStatus n = .confirmed

/-- The nullifiers applied under `pi` were not applied later under another commitment, unless
some confirmed batch has them already. -/
def NoOverlap (log : List Entry) (pi : Bytes32) : Prop :=
  ∀ b, .applied pi b ∈ log → ∀ n ∈ b.nullifiers, lastPi n log = some pi ∨ Spent log n

theorem Applies.complete_iff (h : Applies kind preimage pi b s s') :
    NullifiersComplete s' (log ++ [.applied pi b]) ↔ NullifiersComplete s log := by
  refine forall_congr' fun n => ?_
  rw [getNullifierStatus_eq_confirmed, getNullifierStatus_eq_confirmed, h.confirmedNullifiers,
    Spent, Spent]
  simp only [confirmedBatch_applied]

/-- A confirmation keeps the index complete exactly when no nullifier of its batches was
overwritten. -/
theorem Confirms.complete_iff (h : Confirms perm pi r s s') (hinv : NullifierInv s log)
    (hcomplete : NullifiersComplete s log) :
    NullifiersComplete s' (log ++ [.confirmed pi]) ↔ NoOverlap log pi := by
  constructor
  · intro hcomplete' b hb n hn
    have hstatus := hcomplete' n ⟨pi, b, confirmedBatch_confirmed.mpr (.inr ⟨rfl, hb⟩), hn⟩
    rw [getNullifierStatus_eq_confirmed, h.confirmedNullifiers] at hstatus
    rcases hstatus with hn | hn
    · exact .inr (hinv.spent n hn)
    · exact .inl (hinv.pending n pi hn)
  · rintro hoverlap n ⟨q, b, hb, hn⟩
    rw [getNullifierStatus_eq_confirmed, h.confirmedNullifiers]
    have hspent : Spent log n → s.confirmedNullifiers n = true := fun hn =>
      getNullifierStatus_eq_confirmed.mp (hcomplete n hn)
    rcases confirmedBatch_confirmed.mp hb with hb | ⟨rfl, happlied⟩
    · exact .inl (hspent ⟨q, b, hb, hn⟩)
    · rcases hoverlap b happlied n hn with hlast | hn
      · exact (hinv.kept n q hlast).symm
      · exact .inl (hspent hn)

end Inv

/-- Every confirmation of the run finds the nullifiers of its batches. -/
def NeverOverlaps (log : List Entry) : Prop :=
  ∀ before pi, before ++ [.confirmed pi] <+: log → NoOverlap before pi

theorem neverOverlaps_nil : NeverOverlaps [] := by
  intro before pi hprefix
  have hnil := List.prefix_nil.mp hprefix
  simp at hnil

theorem neverOverlaps_applied {log : List Entry} {pi : Bytes32} {b : ParsedBatch} :
    NeverOverlaps (log ++ [.applied pi b]) ↔ NeverOverlaps log := by
  refine forall₂_congr fun before q => ?_
  rw [List.prefix_concat_iff]
  refine imp_congr_left ⟨fun h => h.resolve_left fun heq => ?_, .inr⟩
  obtain ⟨-, hlast⟩ := List.append_inj' heq rfl
  cases hlast

theorem neverOverlaps_confirmed {log : List Entry} {pi : Bytes32} :
    NeverOverlaps (log ++ [.confirmed pi]) ↔ NeverOverlaps log ∧ NoOverlap log pi := by
  constructor
  · intro h
    refine ⟨fun before q hprefix => h before q ?_, h log pi (List.prefix_refl _)⟩
    exact hprefix.trans (List.prefix_append _ _)
  · rintro ⟨h, hlast⟩ before q hprefix
    rcases List.prefix_concat_iff.mp hprefix with heq | hprefix
    · obtain ⟨rfl, hq⟩ := List.append_inj' heq rfl
      cases hq
      exact hlast
    · exact h before q hprefix

/-- The nullifier index of a run: what is reported Confirmed is a nullifier of a confirmed
batch, and the converse holds all along the run exactly when no batch is confirmed while one of
its nullifiers is pending under another commitment. -/
theorem nullifier_status_complete {perm : State → State} {depth : ℕ} {s : StateSyncState}
    (h : StateSyncState.new perm depth = .ok s) (ops : List Op) :
    (∀ pre, pre <+: ops → ∀ n,
      (runLog (step perm) record s pre).1.getNullifierStatus n = .confirmed →
        Spent (runLog (step perm) record s pre).2 n) ∧
    ((∀ pre, pre <+: ops → NullifiersComplete (runLog (step perm) record s pre).1
        (runLog (step perm) record s pre).2) ↔
      NeverOverlaps (runLog (step perm) record s ops).2) := by
  refine ⟨fun pre _ n hn => ?_, ?_⟩
  · exact (nullifierInv_of_run h pre).spent n (getNullifierStatus_eq_confirmed.mp hn)
  · induction ops using List.reverseRecOn with
    | nil =>
      refine ⟨fun _ => neverOverlaps_nil, fun _ pre hpre n hn => ?_⟩
      rw [List.prefix_nil.mp hpre] at hn
      obtain ⟨pi, b, ⟨before, after, heq, -⟩, -⟩ := hn
      simp [runLog] at heq
    | append_singleton ops op ih =>
      have hinv := nullifierInv_of_run h ops
      rw [forall_prefix_concat, runLog_concat]
      unfold attemptLog
      split
      · rename_i s' hstep
        rcases step_cases hstep with ⟨kind, preimage, pi, b, rfl, hb, hrecord, happlies⟩ |
          ⟨pi, r, root, rfl, hrecord, hconfirms⟩
        · rw [hrecord, happlies.complete_iff, neverOverlaps_applied, ← ih]
          exact and_iff_left_of_imp fun hall => hall ops (List.prefix_refl _)
        · rw [hrecord, neverOverlaps_confirmed, ← ih]
          refine and_congr_right fun hall => ?_
          exact hconfirms.complete_iff hinv (hall ops (List.prefix_refl _))
      · rw [← ih]
        exact and_iff_left_of_imp fun hall => hall ops (List.prefix_refl _)

/-! ## Two batches with one nullifier -/

/-- A transaction that spends the zero nullifier; `x` tells the batches apart. -/
def spendZero (x : F) : Circuit.TxCircuitPublicTargets := sampleTx 0 fun _ => x

/-- Two pending batches with the zero nullifier. -/
def overlapping : List Op :=
  [.apply .transaction (repeatedTx 0 (spendZero 1)) 1,
    .apply .transaction (repeatedTx 0 (spendZero 2)) 2]

def overlapLog : List Entry :=
  [.applied 1 (repeatedBatch (spendZero 1)), .applied 2 (repeatedBatch (spendZero 2))]

theorem zero_mem_spendZero (x : F) : (0 : HashOut) ∈ (repeatedBatch (spendZero x)).nullifiers :=
  accinNull_mem (t := spendZero x) one_ne_zero

/-- Either batch can be confirmed. -/
theorem overlapping_confirm {s : StateSyncState} (h : StateSyncState.new id 1 = .ok s)
    (pi : Bytes32) :
    ∃ s', runLog (step id) record s (overlapping ++ [.confirm pi 0 0]) =
        (s', overlapLog ++ [.confirmed pi]) ∧
      (pi ≠ 2 → s'.confirmedNullifiers 0 = false ∧ s'.pendingNullifiers 0 = some 2) := by
  obtain ⟨hdepth, hrep⟩ := new_represented h
  obtain ⟨s₁, h₁⟩ := applyPreimage_isOk (parsed_repeatedTx 0 (spendZero 1)) 1 s
  obtain ⟨b₁, hb₁, happlies₁⟩ := applies_of_applyPreimage h₁
  obtain rfl := Option.some.inj ((parsed_repeatedTx 0 (spendZero 1)).symm.trans hb₁)
  obtain ⟨s₂, h₂⟩ := applyPreimage_isOk (parsed_repeatedTx 0 (spendZero 2)) 2 s₁
  obtain ⟨b₂, hb₂, happlies₂⟩ := applies_of_applyPreimage h₂
  obtain rfl := Option.some.inj ((parsed_repeatedTx 0 (spendZero 2)).symm.trans hb₂)
  have hrep₂ : Represents (hashOutput id) 1 [] s₂.stateTree := by
    rw [happlies₂.stateTree, happlies₁.stateTree]
    exact hrep
  obtain ⟨s₃, h₃⟩ := confirmBatch_isOk hdepth hrep₂ (by decide) pi 0 0
  have hconfirms := confirms_of_confirmBatch h₃
  have hpending : s₂.pendingNullifiers 0 = some 2 := by
    rw [happlies₂.nullifiers, if_pos (zero_mem_spendZero 2)]
  refine ⟨s₃, ?_, fun hpi => ⟨?_, ?_⟩⟩
  · have hstep₁ : step id (.apply .transaction (repeatedTx 0 (spendZero 1)) 1) s = .ok s₁ := h₁
    have hstep₂ : step id (.apply .transaction (repeatedTx 0 (spendZero 2)) 2) s₁ = .ok s₂ := h₂
    have hstep₃ : step id (.confirm pi 0 0) s₂ = .ok s₃ := h₃
    rw [runLog_concat, overlapping, runLog, List.foldl_cons, attemptLog_ok hstep₁,
      List.foldl_cons, attemptLog_ok hstep₂, List.foldl_nil, attemptLog_ok hstep₃]
    simp only [record, parsed_repeatedTx, Option.map_some, Option.toList_some, List.nil_append,
      List.cons_append, overlapLog]
  · rw [Bool.eq_false_iff, ne_eq, hconfirms.confirmedNullifiers, hpending,
      happlies₂.confirmedNullifiers, happlies₁.confirmedNullifiers]
    rintro (hconfirmed | heq)
    · obtain ⟨q, b, ⟨before, after, hlog, -⟩, -⟩ := (new_nullifierInv h).spent 0 hconfirmed
      simp at hlog
    · exact hpi (Option.some.inj heq).symm
  · rw [hconfirms.pendingNullifiers, hpending, if_neg]
    intro heq
    exact hpi (Option.some.inj heq).symm

/-- The batch submitted last is confirmed: all its nullifiers are found. -/
theorem nullifier_status_complete_last : ∃ s, StateSyncState.new id 1 = .ok s ∧
    ∀ pre, pre <+: overlapping ++ [.confirm 2 0 0] →
      NullifiersComplete (runLog (step id) record s pre).1 (runLog (step id) record s pre).2 := by
  obtain ⟨s, h⟩ := new_isOk id Nat.one_pos
  obtain ⟨s', hrun, -⟩ := overlapping_confirm h 2
  refine ⟨s, h, (nullifier_status_complete h _).2.mpr ?_⟩
  rw [hrun]
  refine neverOverlaps_confirmed.mpr ⟨?_, ?_⟩
  · exact neverOverlaps_applied.mpr (neverOverlaps_applied.mpr neverOverlaps_nil)
  · intro b hb n hn
    have hlast : lastPi n ([.applied 1 (repeatedBatch (spendZero 1))] ++
        [.applied 2 (repeatedBatch (spendZero 2))]) = some 2 := by
      rcases List.mem_cons.mp hb with heq | hb
      · cases heq
      · obtain heq := List.mem_singleton.mp hb
        cases heq
        rw [lastPi_applied, if_pos hn]
    exact .inl hlast

/-- The batch submitted first is confirmed: its nullifier is reported pending with the other
batch. -/
theorem spent_nullifier_pending : ∃ s n, StateSyncState.new id 1 = .ok s ∧
    Spent (runLog (step id) record s (overlapping ++ [.confirm 1 0 0])).2 n ∧
    (runLog (step id) record s (overlapping ++ [.confirm 1 0 0])).1.getNullifierStatus n =
      .pending 2 := by
  obtain ⟨s, h⟩ := new_isOk id Nat.one_pos
  obtain ⟨s', hrun, hstatus⟩ := overlapping_confirm h 1
  obtain ⟨hconfirmed, hpending⟩ := hstatus (by decide)
  refine ⟨s, 0, h, ?_, ?_⟩
  · rw [hrun]
    refine ⟨1, repeatedBatch (spendZero 1), ?_, zero_mem_spendZero 1⟩
    exact ⟨overlapLog, [], rfl, List.mem_cons_self⟩
  · rw [hrun]
    simp only [StateSyncState.getNullifierStatus, hconfirmed, hpending]
    rfl

end Doxa.StateSync
