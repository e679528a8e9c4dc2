import Doxa.Subpool.Ledger

/-!
# Notes for other subpools

The operator forwards the notes of a request for other subpools after the commit that takes
the request out of the polled ones, one by one, and stops at the first that fails. So they
all reach the sequencer in every run in which no forwarding fails after a commit, and a
note whose forwarding failed is attempted by no later run of the loop. A note that is
delivered again is ignored.
-/

namespace Doxa.Subpool

open Lib Client Circuit

variable {perm : State → State} {w w' : World}

/-! ## Approved requests -/

/-- Each output note for another subpool of an approved request was accepted by the sequencer,
or belongs to a request the loop still polls. -/
def World.NotLost (w : World) : Prop :=
  ∀ row ∈ w.db.spendTxRequests.rows, row.status = .approved →
    ∀ j ∈ row.onoteIdentifiers, ∀ o, w.db.outputNotes.find j = some o →
      ¬ w.db.IsLocal o.recipientAddress →
        (∃ sp, crossNote o sp ∈ w.forwarded) ∨ row ∈ w.db.pendingSpendTxs

/-- No forwarding fails after a commit. -/
def Delivering (w : World) : Op → Prop
  | .process id c => c.post.GoesOn → c.commits = true →
    ∀ row, w.db.spendTxRequests.find id = some row →
      AllDelivered (w.db.crossCount row) c.deliveries
  | _ => True

/-- The notes of an approved request are there, and those for other subpools were forwarded. -/
def World.Forwarded (w : World) : Prop :=
  ∀ row ∈ w.db.spendTxRequests.rows, row.status = .approved →
    ∀ j ∈ row.onoteIdentifiers, ∃ o, w.db.outputNotes.find j = some o ∧
      (¬ w.db.IsLocal o.recipientAddress → ∃ sp, crossNote o sp ∈ w.forwarded)

theorem World.Forwarded.notLost (h : w.Forwarded) : w.NotLost := by
  intro row hrow hstatus j hj o ho hother
  obtain ⟨o', ho', hforwarded⟩ := h row hrow hstatus j hj
  rw [ho, Option.some.injEq] at ho'
  rw [← ho'] at hforwarded
  exact .inl (hforwarded hother)

/-- A commit after which all notes are delivered. -/
theorem commit_forwarded {row : SpendTxRow} {p : PreparedSpend} {c : Circumstances}
    {final : Database × List CrossSubpoolNote} (hw : w.Forwarded)
    (hrow : w.db.spendTxRequests.find row.id = some row)
    (hp : prepareSpend perm w.db row = .ok p)
    (hfinal : finalizeSpend perm w.db row p (c.sign p.txHash) = .ok final)
    (hall : AllDelivered (w.db.crossCount row) c.deliveries) :
    ((w.post p.txReq c.post).commit row p.txReq final c.deliveries).Forwarded := by
  obtain ⟨db', cross⟩ := final
  obtain ⟨inotes, assetId, accin, inotesValue, onotesValue, balance, hd⟩ := prepareSpend_eq_ok hp
  obtain ⟨hrequests, houtputs, hlocal, hsent⟩ := finalizeSpend_frame hfinal
  rw [finalizeSpend_crossCount hd.get_onotes hfinal] at hall
  intro row' hrow' hstatus j hj
  simp only [World.commit, post_forwarded, forwardNotes_eq hall] at hrow' ⊢
  rw [hrequests] at hrow'
  obtain ⟨row₀, hrow₀, rfl⟩ := List.mem_map.mp hrow'
  rw [houtputs]
  simp only [hlocal]
  split at hstatus
  · rename_i hid
    -- the request that is approved now
    obtain rfl : row = row₀ := by
      rw [← hid, Table.find_of_mem hrow₀] at hrow
      exact (Option.some.inj hrow).symm
    rw [if_pos rfl] at hj
    obtain ⟨o, ho, hfind⟩ := exists_of_mem_left (getOnotes_eq_ok.mp hd.get_onotes) hj
    refine ⟨o, hfind, fun hother => ?_⟩
    obtain ⟨sp, hsp⟩ := hsent o ho hother
    exact ⟨sp, List.mem_append_right _ hsp⟩
  · rename_i hid
    rw [if_neg hid] at hj
    obtain ⟨o, hfind, hforwarded⟩ := hw row₀ hrow₀ hstatus j hj
    refine ⟨o, hfind, fun hother => ?_⟩
    obtain ⟨sp, hsp⟩ := hforwarded hother
    exact ⟨sp, List.mem_append_left _ hsp⟩

theorem step_forwarded {o : Op} (hw : w.Forwarded) (hdel : Delivering w o)
    (h : step perm o w = .ok w') : w'.Forwarded := by
  cases o with
  | submit req =>
      obtain ⟨db', sig, outs, hs, rfl⟩ := step_submit h
      obtain ⟨-, hkeep, -, -⟩ := foldlM_insertOutputNote hs.output_notes
      intro row hrow hstatus j hj
      rw [(Table.insert_eq_some hs.request).2, List.mem_append, List.mem_singleton] at hrow
      rcases hrow with hrow | rfl
      · obtain ⟨o, hfind, hforwarded⟩ := hw row hrow hstatus j hj
        refine ⟨o, hkeep j o hfind, ?_⟩
        rw [Database.IsLocal, hs.accounts]
        exact hforwarded
      · cases hstatus
  | process id c =>
      obtain ⟨row, hrow, -, hproc⟩ := step_process h
      obtain rfl : row.id = id := Table.key_of_find hrow
      obtain ⟨p, hp, rfl | ⟨final, hgo, hcommits, hfinal, rfl⟩⟩ := processOneSpendTx_cases hproc
      · unfold World.Forwarded
        rw [post_db, post_forwarded]
        exact hw
      · exact commit_forwarded hw hrow hp hfinal (hdel hgo hcommits row hrow)
  | receive note =>
      obtain ⟨assetIdBytes, amountBytes, memoBytes, -, -, rfl⟩ := step_receive h
      exact hw
  | closeBatch =>
      obtain rfl := Except.ok.inj h
      exact hw

/-! ## Incoming notes -/

/-- An input note that is known stays known. -/
theorem step_keeps_known {o : Op} {k : String} (hk : (w.db.inputNotes.find k).isSome)
    (h : step perm o w = .ok w') : (w'.db.inputNotes.find k).isSome := by
  obtain ⟨r, hr⟩ := Option.isSome_iff_exists.mp hk
  cases o with
  | submit req =>
      obtain ⟨db', sig, outs, hs, rfl⟩ := step_submit h
      rw [hs.input_notes]
      exact hk
  | process id c =>
      obtain ⟨row, -, -, hproc⟩ := step_process h
      obtain ⟨p, -, rfl | ⟨⟨db', cross⟩, -, -, hfinal, rfl⟩⟩ := processOneSpendTx_cases hproc
      · rwa [post_db]
      · rw [World.commit, finalizeSpend_find hfinal hr]
        rfl
  | receive note =>
      obtain ⟨assetIdBytes, amountBytes, memoBytes, -, -, rfl⟩ := step_receive h
      rw [Database.insertApprovedInputNote, Table.find_insertOrIgnore hr]
      rfl
  | closeBatch =>
      obtain rfl := Except.ok.inj h
      exact hk

/-- A received note is known. -/
theorem receive_known {note : IncomingNote} (h : step perm (.receive note) w = .ok w') :
    (w'.db.inputNotes.find note.identifier).isSome := by
  obtain ⟨assetIdBytes, amountBytes, memoBytes, -, -, rfl⟩ := step_receive h
  cases hfind : w.db.inputNotes.find note.identifier with
  | none =>
      have hnew : (w.db.insertApprovedInputNote note.identifier assetIdBytes amountBytes
          note.recipientAddress note.senderAddress memoBytes).inputNotes.find note.identifier =
          some _ := (Table.find_insert (insertApproved_free hfind)).trans (if_pos rfl)
      rw [hnew]
      rfl
  | some r =>
      simp only [insertApproved_taken hfind, hfind]
      rfl

/-- A known note is not inserted again. -/
theorem receive_again {note : IncomingNote} (h : (w.db.inputNotes.find note.identifier).isSome) :
    (attempt (step perm) w (.receive note)).db = w.db := by
  obtain ⟨r, hr⟩ := Option.isSome_iff_exists.mp h
  unfold attempt
  split
  · rename_i w' hstep
    obtain ⟨assetIdBytes, amountBytes, memoBytes, -, -, rfl⟩ := step_receive hstep
    exact insertApproved_taken hr
  · rfl

/-! ## Runs -/

/-- Along every run in which no forwarding fails after a commit, no note of an approved request is
lost; and a note that was received is never inserted again, whatever happens in between. -/
theorem cross_notes_not_lost (perm : State → State) {db : Database}
    (hdb : ∀ row ∈ db.spendTxRequests.rows, row.status ≠ .approved) {ops : List Op}
    (hops : Along (step perm) Delivering (World.start db) ops) :
    (run (step perm) (World.start db) ops).NotLost ∧
      ∀ note w' ops', step perm (.receive note) (run (step perm) (World.start db) ops) = .ok w' →
        (attempt (step perm) (run (step perm) w' ops') (.receive note)).db =
          (run (step perm) w' ops').db := by
  constructor
  · refine World.Forwarded.notLost (run_inv_along World.Forwarded ?_ hops ?_)
    · intro row hrow hstatus
      exact absurd hstatus (hdb row hrow)
    · intro o _ t t' ht hdel hstep
      exact step_forwarded ht hdel hstep
  · intro note w' ops' hreceive
    refine receive_again (run_inv ops'
      (fun t : World => (t.db.inputNotes.find note.identifier).isSome) (receive_known hreceive) ?_)
    intro o _ t t' hknown hstep
    exact step_keeps_known hknown hstep

/-! ## A note of the small subpool for another one -/

section Small

/-- The run whose request has one note for another subpool, and what becomes of it. -/
def forwardingRun (d : Delivery) : World :=
  run (step id) (World.start smallDb) [.submit (smallRequest [] 0 1 1), .process 0 (smoothly [d])]

theorem forwardingRun_eq (d : Delivery) :
    ∃ db p final, SmallStored id db [] 0 1 1 ∧
      finalizeSpend id db (requestRow (smallRequest [] 0 1 1) [] 0) p [] = .ok final ∧
      forwardingRun d = ((World.start db).post p.txReq (smoothly [d]).post).commit
        (requestRow (smallRequest [] 0 1 1) [] 0) p.txReq final [d] := by
  obtain ⟨db, hs⟩ := small_stored id [] 0 1 1
  obtain ⟨p, final, -, hfinal, hrun⟩ :=
    small_run id hs (Nat.zero_le _) (c := smoothly [d]) trivial rfl
  exact ⟨db, p, final, hs, hfinal, hrun⟩

/-- The request of the run is approved, and its note is not for an account of the subpool. -/
theorem forwardingRun_approved (d : Delivery) :
    ∃ row ∈ (forwardingRun d).db.spendTxRequests.rows, row.status = .approved ∧
      ∃ j ∈ row.onoteIdentifiers, ∃ o, (forwardingRun d).db.outputNotes.find j = some o ∧
        ¬ (forwardingRun d).db.IsLocal o.recipientAddress := by
  obtain ⟨db, p, ⟨db', cross⟩, hs, hfinal, hrun⟩ := forwardingRun_eq d
  obtain ⟨-, houtputs, hlocal, -⟩ := finalizeSpend_frame hfinal
  obtain ⟨oid, hoid⟩ := hs.output
  rw [hrun, World.commit]
  simp only [houtputs, hlocal]
  refine ⟨_, finalizeSpend_approved hfinal hs.request, rfl, noteId 1, List.mem_singleton_self _, _,
    hoid, ?_⟩
  · have hother : (outputNoteRow (smallOutput 0 1 1) oid).recipientAddress = address 1 := rfl
    have hne : address 0 ≠ address 1 := by
      intro heq
      exact absurd (List.cons.inj (hexEncode_injective heq)).1 (by decide)
    rw [Database.IsLocal, hother, hs.small.accounts, Option.isSome_iff_exists]
    rintro ⟨r, hr⟩
    obtain ⟨hmem, hkey⟩ := Table.find_eq_some.mp hr
    rw [List.mem_singleton.mp hmem] at hkey
    exact hne hkey

theorem cross_notes_not_lost_small :
    (∃ row ∈ (forwardingRun .accepted).db.spendTxRequests.rows, row.status = .approved) ∧
      (forwardingRun .accepted).NotLost := by
  obtain ⟨db, hs⟩ := small_stored id [] 0 1 1
  have hdelivering : Delivering (World.start db) (.process 0 (smoothly [.accepted])) := by
    intro _ _ row hrow
    obtain rfl : requestRow (smallRequest [] 0 1 1) [] 0 = row :=
      Option.some.inj (hs.request.symm.trans hrow)
    refine ⟨?_, ?_⟩
    · exact List.countP_le_length.trans (List.length_filterMap_le _ _)
    · intro d hd
      exact List.mem_singleton.mp (List.mem_of_mem_take hd)
  have halong : Along (step id) Delivering (World.start smallDb)
      [.submit (smallRequest [] 0 1 1), .process 0 (smoothly [.accepted])] := by
    refine ⟨trivial, ?_, trivial⟩
    rw [attempt_ok hs.step]
    exact hdelivering
  have hnone : ∀ row ∈ smallDb.spendTxRequests.rows, row.status ≠ .approved :=
    fun row hrow => absurd hrow List.not_mem_nil
  obtain ⟨row, hrow, hstatus, -⟩ := forwardingRun_approved .accepted
  exact ⟨⟨row, hrow, hstatus⟩, (cross_notes_not_lost id hnone halong).1⟩

/-- The forwarding fails: the request is approved, and its note is lost. -/
theorem cross_note_lost : ¬ (forwardingRun .failed).NotLost := by
  intro h
  obtain ⟨row, hrow, hstatus, j, hj, o, ho, hother⟩ := forwardingRun_approved .failed
  have hforwarded : (forwardingRun .failed).forwarded = [] := by
    obtain ⟨db, p, ⟨db', cross⟩, -, -, hrun⟩ := forwardingRun_eq .failed
    rw [hrun, World.commit, post_forwarded]
    cases cross <;> rfl
  rcases h row hrow hstatus j hj o ho hother with ⟨sp, hsp⟩ | hpending
  · rw [hforwarded] at hsp
    cases hsp
  · have hpending' := of_decide_eq_true (List.mem_filter.mp hpending).2
    rw [hstatus] at hpending'
    cases hpending'

end Small

end Doxa.Subpool
