import Doxa.Circuit.Targets

/-!
# Account leaves and note leaves

Accounts and notes are opened against the same state root. Both commitments absorb two
full blocks and a short third one, of three elements for an account and five for a note,
and nothing tells the two lengths apart: a note whose last block repeats the account's
and continues with the two lanes the account leaves untouched reaches the same state.

`commitment_separation` says exactly when the commitments are separated, up to a collision
of the permutation, and `noteOfAccount` is a note with the commitment of a given account.
-/

namespace Doxa.Circuit

open Lib

variable (perm : State → State)

/-- The state after the first two blocks. -/
def stateAfter16 (xs : List F) : State := absorb perm 0 [xs.take 8, (xs.drop 8).take 8]

/-- The state the last permutation of a three-block hash is applied to. -/
def lastInput (xs : List F) : State := overwrite (xs.drop 16) (stateAfter16 perm xs)

/-- All states the permutation is applied to while `xs` is hashed. -/
def hashInputs (xs : List F) : List State := permInputs perm 0 (chunks 8 xs)

/-- Two different permutation inputs of the two hashes agree on the four output lanes. -/
def Extractable (xs ys : List F) : Prop :=
  ∃ X ∈ hashInputs perm xs ++ hashInputs perm ys, ∃ Y ∈ hashInputs perm xs ++ hashInputs perm ys,
    X ≠ Y ∧ squeeze (perm X) = squeeze (perm Y)

instance (xs ys : List F) : Decidable (Extractable perm xs ys) :=
  inferInstanceAs (Decidable (∃ X ∈ _, ∃ Y ∈ _, _))

variable {perm} {xs ys : List F}

theorem hashInputs_three (hlo : 16 < xs.length) (hhi : xs.length ≤ 24) :
    hashInputs perm xs = [overwrite (xs.take 8) 0,
      overwrite ((xs.drop 8).take 8) (perm (overwrite (xs.take 8) 0)), lastInput perm xs] := by
  unfold hashInputs
  rw [chunks_three (by omega) (by omega) (by omega)]
  rfl

theorem hashNoPad_three (hlo : 16 < xs.length) (hhi : xs.length ≤ 24) :
    hashNoPad perm xs = squeeze (perm (lastInput perm xs)) := by
  unfold hashNoPad
  rw [chunks_three (by omega) (by omega) (by omega)]
  rfl

theorem lastInput_mem (hlo : 16 < xs.length) (hhi : xs.length ≤ 24) :
    lastInput perm xs ∈ hashInputs perm xs := by
  rw [hashInputs_three hlo hhi]
  simp

/-- Equal digests of three-block inputs come from equal last states or exhibit a
collision. -/
theorem collision_of_hash_eq (hxs : 16 < xs.length ∧ xs.length ≤ 24)
    (hys : 16 < ys.length ∧ ys.length ≤ 24) (heq : hashNoPad perm xs = hashNoPad perm ys) :
    lastInput perm xs = lastInput perm ys ∨ Extractable perm xs ys := by
  by_cases hlast : lastInput perm xs = lastInput perm ys
  · exact .inl hlast
  · rw [hashNoPad_three hxs.1 hxs.2, hashNoPad_three hys.1 hys.2] at heq
    have hX : lastInput perm xs ∈ hashInputs perm xs := lastInput_mem hxs.1 hxs.2
    have hY : lastInput perm ys ∈ hashInputs perm ys := lastInput_mem hys.1 hys.2
    exact .inr ⟨_, List.mem_append_left _ hX, _, List.mem_append_right _ hY, hlast, heq⟩

variable (perm)

/-- The last block of the note repeats the last three elements of the account and the two
lanes behind them, and the other lanes agree. -/
def Confused (acc : AccountTarget) (note : StandardNoteTarget) : Prop :=
  (note.sender.subpoolId = acc.consumeAuth.pk 2 ∧
    note.sender.publicIdentifier 0 = acc.consumeAuth.pk 3 ∧
    note.sender.publicIdentifier 1 = acc.consumeAuth.pk 4 ∧
    note.sender.publicIdentifier 2 = stateAfter16 perm acc.preimage 3 ∧
    note.sender.publicIdentifier 3 = stateAfter16 perm acc.preimage 4) ∧
  ∀ i : Fin 12, 5 ≤ i → stateAfter16 perm acc.preimage i = stateAfter16 perm note.preimage i

theorem AccountTarget.preimage_three (acc : AccountTarget) :
    16 < acc.preimage.length ∧ acc.preimage.length ≤ 24 := by
  rw [acc.preimage_length]
  decide

theorem StandardNoteTarget.preimage_three (note : StandardNoteTarget) :
    16 < note.preimage.length ∧ note.preimage.length ≤ 24 := by
  rw [note.preimage_length]
  decide

theorem account_lastBlock (acc : AccountTarget) :
    acc.preimage.drop 16 = [acc.consumeAuth.pk 2, acc.consumeAuth.pk 3, acc.consumeAuth.pk 4] := by
  simp [AccountTarget.preimage, List.ofFn_succ]

theorem note_lastBlock (note : StandardNoteTarget) :
    note.preimage.drop 16 = [note.sender.subpoolId, note.sender.publicIdentifier 0,
      note.sender.publicIdentifier 1, note.sender.publicIdentifier 2,
      note.sender.publicIdentifier 3] := by
  simp [StandardNoteTarget.preimage, List.ofFn_succ]

theorem lastInput_eq_iff (acc : AccountTarget) (note : StandardNoteTarget) :
    lastInput perm acc.preimage = lastInput perm note.preimage ↔ Confused perm acc note := by
  unfold lastInput Confused
  rw [account_lastBlock, note_lastBlock, overwrite_eq_iff (by simp) (by simp)]
  simp only [List.length_cons, List.length_nil, List.ofFn_succ, List.ofFn_zero, List.cons_append,
    List.nil_append, List.cons.injEq, and_true]
  exact Iff.rfl

theorem commitments_eq_of_confused {acc : AccountTarget} {note : StandardNoteTarget}
    (h : Confused perm acc note) :
    deriveAccountCommitment perm acc = deriveNoteCommitment perm note := by
  have hlast := (lastInput_eq_iff perm acc note).mpr h
  unfold deriveAccountCommitment deriveNoteCommitment
  rw [hashNoPad_three acc.preimage_three.1 acc.preimage_three.2,
    hashNoPad_three note.preimage_three.1 note.preimage_three.2, hlast]

/-- The two commitments differ up to an extractable collision exactly when the note's last
block does not continue the account's. -/
theorem commitment_separation (acc : AccountTarget) (note : StandardNoteTarget) :
    (deriveAccountCommitment perm acc ≠ deriveNoteCommitment perm note ∨
        Extractable perm acc.preimage note.preimage) ↔
      (¬ Confused perm acc note ∨ Extractable perm acc.preimage note.preimage) := by
  constructor
  · rintro (hne | hext)
    · exact .inl fun hconf => hne (commitments_eq_of_confused perm hconf)
    · exact .inr hext
  · rintro (hconf | hext)
    · by_cases heq : deriveAccountCommitment perm acc = deriveNoteCommitment perm note
      · obtain hlast | hext := collision_of_hash_eq acc.preimage_three note.preimage_three heq
        · exact absurd ((lastInput_eq_iff perm acc note).mp hlast) hconf
        · exact .inr hext
      · exact .inl heq
    · exact .inr hext

/-! ## A note for every account -/

/-- The first sixteen elements of the account read as a note, and the last block continued
with the two lanes the account does not overwrite. -/
def noteOfAccount (acc : AccountTarget) : StandardNoteTarget where
  identifier := acc.privateIdentifier
  amount := ![acc.subpoolId, acc.accAstRoot 0, acc.accAstRoot 1, acc.accAstRoot 2,
    acc.accAstRoot 3, acc.nonce, acc.spendAuth 0, acc.spendAuth 1]
  assetId := acc.spendAuth 2
  recipient := {
    subpoolId := acc.spendAuth 3
    publicIdentifier := ![acc.spendAuth 4, acc.consumeAuth.config, acc.consumeAuth.pk 0,
      acc.consumeAuth.pk 1] }
  sender := {
    subpoolId := acc.consumeAuth.pk 2
    publicIdentifier := ![acc.consumeAuth.pk 3, acc.consumeAuth.pk 4,
      stateAfter16 perm acc.preimage 3, stateAfter16 perm acc.preimage 4] }

theorem noteOfAccount_take (acc : AccountTarget) :
    (noteOfAccount perm acc).preimage.take 16 = acc.preimage.take 16 := by
  simp [AccountTarget.preimage, StandardNoteTarget.preimage, noteOfAccount, List.ofFn_succ]

theorem take_eight (h : xs.take 16 = ys.take 16) : xs.take 8 = ys.take 8 := by
  have h' := congrArg (List.take 8) h
  simpa [List.take_take] using h'

theorem drop_eight (h : xs.take 16 = ys.take 16) :
    (xs.drop 8).take 8 = (ys.drop 8).take 8 := by
  have h' := congrArg (List.drop 8) h
  simpa [List.drop_take] using h'

theorem noteOfAccount_confused (acc : AccountTarget) :
    Confused perm acc (noteOfAccount perm acc) := by
  have htake := noteOfAccount_take perm acc
  have hstate : stateAfter16 perm (noteOfAccount perm acc).preimage =
      stateAfter16 perm acc.preimage := by
    rw [stateAfter16, stateAfter16, take_eight htake, drop_eight htake]
  exact ⟨⟨rfl, rfl, rfl, rfl, rfl⟩, fun i _ => (congrFun hstate i).symm⟩

/-- The two hashes apply the permutation to the same three states. -/
theorem noteOfAccount_hashInputs (acc : AccountTarget) :
    hashInputs perm (noteOfAccount perm acc).preimage = hashInputs perm acc.preimage := by
  have htake := noteOfAccount_take perm acc
  have hfirst := take_eight htake
  have hsecond := drop_eight htake
  have hlast := (lastInput_eq_iff perm acc _).mpr (noteOfAccount_confused perm acc)
  rw [hashInputs_three (noteOfAccount perm acc).preimage_three.1
      (noteOfAccount perm acc).preimage_three.2,
    hashInputs_three acc.preimage_three.1 acc.preimage_three.2, hfirst, hsecond, hlast]

/-- An account as the circuit creates it. -/
def sampleAccount : AccountTarget where
  privateIdentifier := ![1, 2]
  nonce := 0
  subpoolId := 1
  accAstRoot := AST_DEFAULT_ROOT
  spendAuth := DEFAULT_SPEND_AUTH_PK
  consumeAuth := { config := 0, pk := DEFAULT_ACC_COMM_CONSUME_PK_PLACEHOLDER }

theorem account_leaf_opens_as_note :
    sampleAccount.Allocated ∧
    deriveAccountCommitment id sampleAccount =
      deriveNoteCommitment id (noteOfAccount id sampleAccount) ∧
    ¬ Extractable id sampleAccount.preimage (noteOfAccount id sampleAccount).preimage := by
  refine ⟨isBool_iff.mpr (.inl rfl), commitments_eq_of_confused id (noteOfAccount_confused id _), ?_⟩
  unfold Extractable
  rw [noteOfAccount_hashInputs]
  decide +kernel

end Doxa.Circuit
