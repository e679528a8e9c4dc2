import Doxa.Subpool.Pending
import Doxa.Subpool.Ledger

/-!
# The operator and the sequencer

The operator posts a transaction before it commits, and takes the conflict on the account
nullifier for a sign that it had posted it before. The sequencer is given by what it does
with each post; the operator relies on it to take no two transactions of one nullifier into
a batch. Both agree in every run in which a conflict is acted on only where the batch holds
the request's own transaction, and a batch is closed only when its transactions are
finalized. The operator checks neither.
-/

namespace Doxa.Subpool

open Lib Client Circuit

/-! ## The sequencer -/

/-- What the operator relies on when it posts a transaction. -/
structure HonestReaction (batch : List TransactionRequest) (t : TransactionRequest) (re : Reaction) :
    Prop where
  fresh : re.accepted = true → ∀ t' ∈ batch, t'.inputAccountLeaf ≠ t.inputAccountLeaf
  success : re.answer = some .success → re.accepted = true
  conflict : ∀ status body, re.answer = some (.failure status body) → alreadyInBatch status body →
    ∃ t' ∈ batch, t'.inputAccountLeaf = t.inputAccountLeaf

/-- The sequencer reacts so to each post. -/
def Honest (perm : State → State) (w : World) : Op → Prop
  | .process id c => ∀ row p, w.db.spendTxRequests.find id = some row →
    prepareSpend perm w.db row = .ok p → HonestReaction w.batch p.txReq c.post
  | _ => True

/-- The account nullifier is that of the row of the account. -/
def HasLeaf (perm : State → State) (db : Database) (address leaf : String) : Prop :=
  ∃ r acc n, db.accounts.find address = some r ∧ accountFromRow perm r = .ok acc ∧
    acc.nullifier perm = .ok n ∧ leaf = hashToHex n

/-- A conflict that leads to a commit is with the request's own transaction, and each
transaction of a batch that is closed is approved. -/
def Orderly (perm : State → State) (w : World) : Op → Prop
  | .process id c => c.post.accepted = false → c.post.GoesOn → c.commits = true →
    ∀ row, w.db.spendTxRequests.find id = some row →
      ∀ t ∈ w.batch, HasLeaf perm w.db row.privAccAddress t.inputAccountLeaf → t.txId = spendTxId id
  | .closeBatch => ∀ t ∈ w.batch, t ∈ w.approvals
  | _ => True

/-- The operator and the sequencer agree: an approved request has a transaction that was
approved, an approved transaction was accepted, and an accepted one is approved already or will
be when its request is processed again. -/
structure World.Agrees (perm : State → State) (w : World) : Prop where
  approved : ∀ row ∈ w.db.spendTxRequests.rows, row.status = .approved →
    ∃ t ∈ w.approvals, t.txId = spendTxId row.id
  accepted : ∀ t ∈ w.approvals, t ∈ w.accepted
  applied : ∀ t ∈ w.accepted, t ∉ w.approvals → t ∈ w.batch ∧ ∃ id, t.txId = spendTxId id ∧
    ∀ c : Circumstances, c.post.GoesOn → c.commits = true →
      ∃ w', step perm (.process id c) w = .ok w' ∧ t ∈ w'.approvals

theorem spendTxId_injective : Function.Injective spendTxId := by
  intro a b h
  exact toString_nat_injective ((String.append_right_inj _).mp h)

/-! ## Private identifiers -/

section Identifiers

variable {perm : State → State} {db db' : Database} {row : SpendTxRow} {p : PreparedSpend}
  {sigBytes : List Byte} {cross : List CrossSubpoolNote}

/-- The private identifiers of the accounts differ, and are written as the client writes them. -/
structure Database.Identified (perm : State → State) (db : Database) : Prop where
  unique : (db.accounts.rows.map AccountRow.privateIdentifier).Nodup
  canonical : ∀ r ∈ db.accounts.rows, ∀ acc, accountFromRow perm r = .ok acc →
    r.privateIdentifier = hexEncode (privateIdToBytes acc.privateIdentifier)

theorem Database.Identified.not_taken (h : db.Identified perm) {address : String} {r : AccountRow}
    {acc : StandardAccount} (hr : db.accounts.find address = some r)
    (hacc : accountFromRow perm r = .ok acc) :
    ¬ db.IdentifierTaken address (hexEncode (privateIdToBytes acc.privateIdentifier)) := by
  obtain ⟨hmem, hkey⟩ := Table.find_eq_some.mp hr
  rintro ⟨-, r', hr', hne, hsame⟩
  rw [← h.canonical r hmem acc hacc] at hsame
  have heq := List.inj_on_of_nodup_map h.unique hr' hmem hsame
  rw [heq] at hne
  exact hne hkey

/-- A commit keeps the private identifier of the sender. -/
theorem Database.Identified.commit (h : db.Identified perm) (hp : prepareSpend perm db row = .ok p)
    (hfinal : finalizeSpend perm db row p sigBytes = .ok (db', cross)) : db'.Identified perm := by
  obtain ⟨inotes, assetId, accin, inotesValue, onotesValue, balance, hd⟩ := prepareSpend_eq_ok hp
  obtain ⟨ins, hins, haccounts⟩ := finalizeSpend_accounts hfinal
  obtain ⟨hmem, hkey⟩ := Table.find_eq_some.mp hd.account
  have hpi : ins.privateIdentifier = p.accRow.privateIdentifier := by
    rw [h.canonical _ hmem accin hd.from_row, (accountToInsert_eq_ok hins).1, hd.accout]
    rfl
  have hrows : db'.accounts.rows.map AccountRow.privateIdentifier =
      db.accounts.rows.map AccountRow.privateIdentifier := by
    rw [haccounts, Table.update, List.map_map]
    refine List.map_congr_left fun r hr => ?_
    rw [Function.comp_apply]
    split
    · rename_i hsame
      obtain rfl : r = p.accRow := by
        have hfind := Table.find_of_mem hr
        rw [hsame, hd.account] at hfind
        exact (Option.some.inj hfind).symm
      exact hpi
    · rfl
  refine ⟨by rw [hrows]; exact h.unique, ?_⟩
  intro r hr acc hacc
  by_cases hsame : r.privateAccAddress = row.privAccAddress
  · have hfind := Table.find_of_mem hr
    rw [hsame] at hfind
    exact absurd hacc (finalizeSpend_unreadable hp hfinal hfind acc)
  · have hfind := Table.find_of_mem hr
    rw [finalizeSpend_account_ne hfinal hsame] at hfind
    exact h.canonical r (Table.mem_of_find hfind) acc hacc

end Identifiers

/-! ## The invariant -/

section Invariant

variable {perm : State → State} {w w' : World}

/-- The transaction belongs to a request that is still pending and would be posted again. -/
def World.Resumable (perm : State → State) (w : World) (t : TransactionRequest) : Prop :=
  t ∈ w.batch ∧ ∃ row p, w.db.spendTxRequests.find row.id = some row ∧ row.status = .pending ∧
    prepareSpend perm w.db row = .ok p ∧ p.txReq = t

structure World.Synced (perm : State → State) (w : World) : Prop where
  identified : w.db.Identified perm
  approved : ∀ row ∈ w.db.spendTxRequests.rows, row.status = .approved →
    ∃ t ∈ w.approvals, t.txId = spendTxId row.id
  request : ∀ t ∈ w.approvals, ∃ row ∈ w.db.spendTxRequests.rows, row.status = .approved ∧
    t.txId = spendTxId row.id
  accepted : ∀ t ∈ w.approvals, t ∈ w.accepted
  batch : ∀ t ∈ w.batch, t ∈ w.accepted
  resumable : ∀ t ∈ w.accepted, t ∉ w.approvals → w.Resumable perm t

/-- A resumable transaction is approved when its request is processed to the end. -/
theorem World.Resumable.applied {t : TransactionRequest} (h : w.Resumable perm t)
    (hdb : w.db.Identified perm) :
    ∃ id, t.txId = spendTxId id ∧ ∀ c : Circumstances, c.post.GoesOn → c.commits = true →
      ∃ w', step perm (.process id c) w = .ok w' ∧ t ∈ w'.approvals := by
  obtain ⟨-, row, p, hrow, hstatus, hp, rfl⟩ := h
  obtain ⟨inotes, assetId, accin, inotesValue, onotesValue, balance, hd⟩ := prepareSpend_eq_ok hp
  refine ⟨row.id, hd.tx_id, fun c hgo hcommits => ?_⟩
  obtain ⟨final, hfinal⟩ := finalizeSpend_ok hd (hdb.not_taken hd.account hd.from_row)
    (c.sign p.txHash)
  exact ⟨_, step_process_ok hrow hstatus (processOneSpendTx_ok hp hgo hcommits hfinal),
    List.mem_append_right _ (List.mem_singleton_self _)⟩

theorem World.Synced.agrees (h : w.Synced perm) : w.Agrees perm where
  approved := h.approved
  accepted := h.accepted
  applied := fun t ht hopen =>
    ⟨(h.resumable t ht hopen).1, (h.resumable t ht hopen).applied h.identified⟩

theorem start_synced {db : Database} (hdb : db.Identified perm)
    (hnone : ∀ row ∈ db.spendTxRequests.rows, row.status ≠ .approved) :
    (World.start db).Synced perm :=
  ⟨hdb, fun row hrow hstatus => absurd hstatus (hnone row hrow), nofun, nofun, nofun, nofun⟩

/-- Stored and received notes leave a transaction resumable. -/
theorem World.Resumable.grow {t : TransactionRequest} (h : w.Resumable perm t)
    (hbatch : w'.batch = w.batch) (haccounts : w'.db.accounts = w.db.accounts)
    (hin : ∀ k r, w.db.inputNotes.find k = some r → w'.db.inputNotes.find k = some r)
    (hout : ∀ k o, w.db.outputNotes.find k = some o → w'.db.outputNotes.find k = some o)
    (hrequests : ∀ k r, w.db.spendTxRequests.find k = some r →
      w'.db.spendTxRequests.find k = some r) : w'.Resumable perm t := by
  obtain ⟨hmem, row, p, hrow, hstatus, hp, rfl⟩ := h
  refine ⟨by rw [hbatch]; exact hmem, row, p, hrequests _ _ hrow, hstatus, ?_, rfl⟩
  rw [prepareSpend_grow (.of_prepared hp) haccounts hin hout, hp]

theorem submit_synced {req : SpendTxRequest} (hw : w.Synced perm)
    (h : step perm (.submit req) w = .ok w') : w'.Synced perm := by
  obtain ⟨db', sig, outs, hs, rfl⟩ := step_submit h
  obtain ⟨-, hkeep, -, -⟩ := foldlM_insertOutputNote hs.output_notes
  obtain ⟨hfree, hrows⟩ := Table.insert_eq_some hs.request
  have hrequests : ∀ k r, w.db.spendTxRequests.find k = some r →
      db'.spendTxRequests.find k = some r := by
    intro k r hr
    rw [Table.find_insert hs.request, if_neg]
    · exact hr
    · rintro rfl
      exact absurd (hfree.symm.trans hr) nofun
  refine ⟨?_, ?_, ?_, hw.accepted, hw.batch, ?_⟩
  · obtain ⟨hunique, hcanonical⟩ := hw.identified
    rw [← hs.accounts] at hunique hcanonical
    exact ⟨hunique, hcanonical⟩
  · intro row hrow hstatus
    rw [hrows, List.mem_append, List.mem_singleton] at hrow
    rcases hrow with hrow | rfl
    · exact hw.approved row hrow hstatus
    · cases hstatus
  · intro t ht
    obtain ⟨row, hrow, hstatus, hid⟩ := hw.request t ht
    exact ⟨row, by rw [hrows]; exact List.mem_append_left _ hrow, hstatus, hid⟩
  · intro t ht hopen
    exact (hw.resumable t ht hopen).grow rfl hs.accounts
      (fun k r hr => by rw [hs.input_notes]; exact hr) hkeep hrequests

theorem receive_synced {note : IncomingNote} (hw : w.Synced perm)
    (h : step perm (.receive note) w = .ok w') : w'.Synced perm := by
  obtain ⟨assetIdBytes, amountBytes, memoBytes, -, -, rfl⟩ := step_receive h
  refine ⟨⟨hw.identified.unique, hw.identified.canonical⟩, hw.approved, hw.request, hw.accepted,
    hw.batch, fun t ht hopen => ?_⟩
  exact (hw.resumable t ht hopen).grow rfl rfl (fun k r hr => Table.find_insertOrIgnore hr)
    (fun k o ho => ho) fun k r hr => hr

theorem close_synced (hw : w.Synced perm) (hall : ∀ t ∈ w.batch, t ∈ w.approvals) :
    { w with batch := [] }.Synced perm := by
  refine ⟨hw.identified, hw.approved, hw.request, hw.accepted, nofun, fun t ht hopen => ?_⟩
  exact absurd (hall t (hw.resumable t ht hopen).1) hopen

/-! ## Processing -/

section Processing

variable {row row' : SpendTxRow} {p p' : PreparedSpend}

/-- A prepared transaction bears the nullifier of its account. -/
theorem prepared_hasLeaf {db : Database} (hp : prepareSpend perm db row = .ok p) :
    HasLeaf perm db row.privAccAddress p.txReq.inputAccountLeaf := by
  obtain ⟨inotes, assetId, accin, inotesValue, onotesValue, balance, hd⟩ := prepareSpend_eq_ok hp
  obtain ⟨n, hn, hleaf⟩ := hd.leaf
  exact ⟨p.accRow, accin, n, hd.account, hd.from_row, hn, hleaf⟩

theorem HasLeaf.unique {db : Database} {address leaf leaf' : String} (h : HasLeaf perm db address leaf)
    (h' : HasLeaf perm db address leaf') : leaf = leaf' := by
  obtain ⟨r, acc, n, hr, hacc, hn, rfl⟩ := h
  obtain ⟨r', acc', n', hr', hacc', hn', rfl⟩ := h'
  obtain rfl : r = r' := Option.some.inj (hr.symm.trans hr')
  obtain rfl : acc = acc' := Except.ok.inj (hacc.symm.trans hacc')
  rw [Except.ok.inj (hn.symm.trans hn')]

/-- Transactions of pending requests with one id are the same. -/
theorem prepared_unique {db : Database} (hrow : db.spendTxRequests.find row.id = some row)
    (hrow' : db.spendTxRequests.find row'.id = some row') (hp : prepareSpend perm db row = .ok p)
    (hp' : prepareSpend perm db row' = .ok p') (hid : p'.txReq.txId = spendTxId row.id) : p' = p := by
  obtain ⟨inotes, assetId, accin, inotesValue, onotesValue, balance, hd⟩ := prepareSpend_eq_ok hp'
  have hids : row'.id = row.id := spendTxId_injective (hd.tx_id.symm.trans hid)
  rw [hids, hrow, Option.some.injEq] at hrow'
  rw [← hrow', hp] at hp'
  exact (Except.ok.inj hp').symm

theorem post_synced (hw : w.Synced perm) (hrow : w.db.spendTxRequests.find row.id = some row)
    (hstatus : row.status = .pending) (hp : prepareSpend perm w.db row = .ok p) (re : Reaction) :
    (w.post p.txReq re).Synced perm := by
  unfold World.post
  split
  · refine ⟨hw.identified, hw.approved, hw.request,
      fun t ht => List.mem_append_left _ (hw.accepted t ht), ?_, ?_⟩
    · intro t ht
      rcases List.mem_append.mp ht with ht | ht
      · exact List.mem_append_left _ (hw.batch t ht)
      · exact List.mem_append_right _ ht
    · intro t ht hopen
      rcases List.mem_append.mp ht with ht | ht
      · obtain ⟨hmem, hrest⟩ := hw.resumable t ht hopen
        exact ⟨List.mem_append_left _ hmem, hrest⟩
      · rw [List.mem_singleton.mp ht]
        exact ⟨List.mem_append_right _ (List.mem_singleton_self _), row, p, hrow, hstatus, hp, rfl⟩
  · exact hw

/-- An accepted transaction that another request has open stays resumable after a commit. -/
theorem World.Resumable.commit {t : TransactionRequest} (ht : w.Resumable perm t)
    (hrow : w.db.spendTxRequests.find row.id = some row) (hp : prepareSpend perm w.db row = .ok p)
    {sigBytes : List Byte} {final : Database × List CrossSubpoolNote}
    (hfinal : finalizeSpend perm w.db row p sigBytes = .ok final)
    (hown : ∀ t ∈ w.batch, t.inputAccountLeaf = p.txReq.inputAccountLeaf → t.txId = spendTxId row.id)
    (hne : t ≠ p.txReq) (deliveries : List Delivery) :
    (w.commit row p.txReq final deliveries).Resumable perm t := by
  obtain ⟨db', cross⟩ := final
  obtain ⟨hmem, row', p', hrow', hstatus', hp', rfl⟩ := ht
  have haccount : row'.privAccAddress ≠ row.privAccAddress := by
    intro heq
    have hleaf' := prepared_hasLeaf hp'
    rw [heq] at hleaf'
    have hid := hown _ hmem (hleaf'.unique (prepared_hasLeaf hp))
    exact hne (by rw [prepared_unique hrow hrow' hp hp' hid])
  refine ⟨hmem, row', p', ?_, hstatus', prepareSpend_after_commit hp hfinal haccount hp', rfl⟩
  have hids : row'.id ≠ row.id := by
    intro heq
    rw [heq, hrow, Option.some.injEq] at hrow'
    exact haccount (by rw [hrow'])
  rw [World.commit, (finalizeSpend_frame hfinal).1, Table.find_update_ne hids, hrow']

theorem commit_synced (hw : w.Synced perm) (hrow : w.db.spendTxRequests.find row.id = some row)
    (hp : prepareSpend perm w.db row = .ok p) {sigBytes : List Byte}
    {final : Database × List CrossSubpoolNote}
    (hfinal : finalizeSpend perm w.db row p sigBytes = .ok final) (hmem : p.txReq ∈ w.accepted)
    (hown : ∀ t ∈ w.batch, t.inputAccountLeaf = p.txReq.inputAccountLeaf → t.txId = spendTxId row.id)
    (deliveries : List Delivery) : (w.commit row p.txReq final deliveries).Synced perm := by
  obtain ⟨db', cross⟩ := final
  obtain ⟨inotes, assetId, accin, inotesValue, onotesValue, balance, hd⟩ := prepareSpend_eq_ok hp
  have hrows : db'.spendTxRequests = w.db.spendTxRequests.update row.id
      (Database.approvedRequest sigBytes) (Database.approvedRequest_id sigBytes) :=
    (finalizeSpend_frame hfinal).1
  refine ⟨hw.identified.commit hp hfinal, ?_, ?_, ?_, hw.batch, ?_⟩
  · intro r hr hstatus
    simp only [World.commit, hrows] at hr
    obtain ⟨r₀, hr₀, rfl⟩ := List.mem_map.mp hr
    by_cases hid : r₀.id = row.id
    · refine ⟨p.txReq, List.mem_append_right _ (List.mem_singleton_self _), ?_⟩
      rw [if_pos hid, Database.approvedRequest_id, hid, hd.tx_id]
    · rw [if_neg hid] at hstatus ⊢
      obtain ⟨t, ht, htid⟩ := hw.approved r₀ hr₀ hstatus
      exact ⟨t, List.mem_append_left _ ht, htid⟩
  · intro t ht
    simp only [World.commit, hrows]
    have happroved : ∀ r ∈ w.db.spendTxRequests.rows, r.id = row.id ∨ r.status = .approved →
        ∃ r' ∈ (w.db.spendTxRequests.update row.id (Database.approvedRequest sigBytes)
          (Database.approvedRequest_id sigBytes)).rows, r'.status = .approved ∧ r'.id = r.id := by
      intro r hr hcase
      refine ⟨_, List.mem_map_of_mem hr, ?_⟩
      by_cases hid : r.id = row.id
      · rw [if_pos hid]
        exact ⟨rfl, rfl⟩
      · rw [if_neg hid]
        exact ⟨hcase.resolve_left hid, rfl⟩
    rcases List.mem_append.mp ht with ht | ht
    · obtain ⟨r, hr, hstatus, htid⟩ := hw.request t ht
      obtain ⟨r', hr', hstatus', hid⟩ := happroved r hr (.inr hstatus)
      exact ⟨r', hr', hstatus', by rw [htid, hid]⟩
    · obtain ⟨r', hr', hstatus', hid⟩ := happroved row (Table.mem_of_find hrow) (.inl rfl)
      exact ⟨r', hr', hstatus', by rw [List.mem_singleton.mp ht, hd.tx_id, hid]⟩
  · intro t ht
    rcases List.mem_append.mp ht with ht | ht
    · exact hw.accepted t ht
    · rw [List.mem_singleton.mp ht]
      exact hmem
  · intro t ht hopen
    have hold : t ∉ w.approvals := fun h => hopen (List.mem_append_left _ h)
    have hne : t ≠ p.txReq := fun h => hopen (List.mem_append_right _ (List.mem_singleton.mpr h))
    exact (hw.resumable t ht hold).commit hrow hp hfinal hown hne deliveries

/-- What the conflict tells when it is with the request's own transaction. -/
theorem accepted_of_conflict (hw : w.Synced perm)
    (hrow : w.db.spendTxRequests.find row.id = some row) (hstatus : row.status = .pending)
    (hp : prepareSpend perm w.db row = .ok p) {t : TransactionRequest} (ht : t ∈ w.batch)
    (hid : t.txId = spendTxId row.id) : p.txReq ∈ w.accepted := by
  have hopen : t ∉ w.approvals := by
    intro happroved
    obtain ⟨r, hr, hstatus', hid'⟩ := hw.request t happroved
    have hids : r.id = row.id := spendTxId_injective (hid'.symm.trans hid)
    have hfind := Table.find_of_mem hr
    rw [hids, hrow, Option.some.injEq] at hfind
    rw [← hfind, hstatus] at hstatus'
    cases hstatus'
  obtain ⟨-, row', p', hrow', -, hp', rfl⟩ := hw.resumable t (hw.batch t ht) hopen
  rw [← prepared_unique hrow hrow' hp hp' hid]
  exact hw.batch _ ht

theorem goesOn_cases {re : Reaction} (h : re.GoesOn) :
    re.answer = some .success ∨
      ∃ status body, re.answer = some (.failure status body) ∧ alreadyInBatch status body := by
  unfold Reaction.GoesOn at h
  split at h
  · exact h.elim
  · exact .inl (by assumption)
  · exact .inr ⟨_, _, by assumption, h⟩

theorem process_synced {id : ℕ} {c : Circumstances} (hw : w.Synced perm)
    (hhonest : Honest perm w (.process id c)) (horderly : Orderly perm w (.process id c))
    (h : step perm (.process id c) w = .ok w') : w'.Synced perm := by
  obtain ⟨row, hrow, hstatus, hproc⟩ := step_process h
  obtain rfl : row.id = id := Table.key_of_find hrow
  obtain ⟨p, hp, rfl | ⟨final, hgo, hcommits, hfinal, rfl⟩⟩ := processOneSpendTx_cases hproc
  · exact post_synced hw hrow hstatus hp c.post
  have hre := hhonest row p hrow hp
  have hposted := post_synced hw hrow hstatus hp c.post
  by_cases hacc : c.post.accepted = true
  · obtain ⟨inotes, assetId, accin, inotesValue, onotesValue, balance, hd⟩ := prepareSpend_eq_ok hp
    rw [World.post, if_pos hacc] at hposted ⊢
    refine commit_synced hposted hrow hp hfinal
      (List.mem_append_right _ (List.mem_singleton_self _)) ?_ c.deliveries
    intro t ht hleaf
    rcases List.mem_append.mp ht with ht | ht
    · exact absurd hleaf (hre.fresh hacc t ht)
    · rw [List.mem_singleton.mp ht]
      exact hd.tx_id
  · have hown : ∀ t ∈ w.batch, t.inputAccountLeaf = p.txReq.inputAccountLeaf →
        t.txId = spendTxId row.id := by
      intro t ht hleaf
      refine horderly (Bool.not_eq_true _ ▸ hacc) hgo hcommits row hrow t ht ?_
      rw [hleaf]
      exact prepared_hasLeaf hp
    rw [World.post, if_neg hacc] at hposted ⊢
    -- the sequencer did not take it, so the answer is the conflict
    rcases goesOn_cases hgo with hsuccess | ⟨status, body, hanswer, halready⟩
    · exact absurd (hre.success hsuccess) hacc
    · obtain ⟨t, ht, hleaf⟩ := hre.conflict status body hanswer halready
      exact commit_synced hposted hrow hp hfinal
        (accepted_of_conflict hw hrow hstatus hp ht (hown t ht hleaf)) hown c.deliveries

end Processing

theorem step_synced {o : Op} (hw : w.Synced perm) (hhonest : Honest perm w o)
    (horderly : Orderly perm w o) (h : step perm o w = .ok w') : w'.Synced perm := by
  cases o with
  | submit req => exact submit_synced hw h
  | process id c => exact process_synced hw hhonest horderly h
  | receive note => exact receive_synced hw h
  | closeBatch =>
      obtain rfl := Except.ok.inj h
      exact close_synced hw horderly

end Invariant

/-- The operator and the sequencer agree along every run with an honest sequencer in which
conflicts are with the request's own transaction and batches are closed when they are finalized. -/
theorem operator_sequencer_agree (perm : State → State) {db : Database} (hdb : db.Identified perm)
    (hnone : ∀ row ∈ db.spendTxRequests.rows, row.status ≠ .approved) {ops : List Op}
    (hhonest : Along (step perm) (Honest perm) (World.start db) ops)
    (horderly : Along (step perm) (Orderly perm) (World.start db) ops) :
    (run (step perm) (World.start db) ops).Agrees perm := by
  refine World.Synced.agrees (run_inv_along (World.Synced perm) (start_synced hdb hnone)
    (hhonest.and horderly) ?_)
  rintro o - t t' ht ⟨ho, ho'⟩ hstep
  exact step_synced ht ho ho' hstep

/-! ## The small subpool -/

section Small

/-- The sequencer takes the transaction, and the operator breaks off before its commit. -/
def crashing : Circumstances where
  sign := fun _ => []
  post := ⟨true, some .success⟩
  commits := false
  deliveries := []

/-- The sequencer answers with the conflict, and the operator goes on. -/
def resuming : Circumstances where
  sign := fun _ => []
  post := ⟨false, some (.failure 409 "AN leaf already in current batch")⟩
  commits := true
  deliveries := []

theorem resuming_goesOn : resuming.post.GoesOn := ⟨rfl, List.infix_refl _⟩

variable {perm : State → State} {w : World} {row : SpendTxRow} {p : PreparedSpend} {i : ℕ}

theorem step_crashing (hrow : w.db.spendTxRequests.find i = some row)
    (hstatus : row.status = .pending) (hp : prepareSpend perm w.db row = .ok p) :
    step perm (.process i crashing) w = .ok (w.post p.txReq crashing.post) := by
  refine step_process_ok hrow hstatus ?_
  rw [processOneSpendTx, hp, ok_bind, if_neg fun h => Bool.false_ne_true h.2]
  rfl

/-- A transaction into an empty batch. -/
theorem honest_crashing (hempty : w.batch = []) : Honest perm w (.process i crashing) := by
  intro row p _ _
  rw [hempty]
  exact ⟨fun _ => nofun, fun _ => rfl, nofun⟩

/-- A conflict with a transaction of the same account. -/
theorem honest_resuming {t : TransactionRequest} (hrow : w.db.spendTxRequests.find i = some row)
    (ht : t ∈ w.batch) (hleaf : HasLeaf perm w.db row.privAccAddress t.inputAccountLeaf) :
    Honest perm w (.process i resuming) := by
  intro row' p hrow' hp
  obtain rfl : row = row' := Option.some.inj (hrow.symm.trans hrow')
  exact ⟨nofun, nofun, fun _ _ _ _ => ⟨t, ht, hleaf.unique (prepared_hasLeaf hp)⟩⟩

theorem small_identified (perm : State → State) : smallDb.Identified perm := by
  refine ⟨List.nodup_singleton _, fun r hr acc hacc => ?_⟩
  rw [List.mem_singleton.mp hr] at hacc ⊢
  obtain ⟨b, hb, hpi⟩ := (accountFromRow_eq_ok hacc).identifier
  have hb' : List.replicate 16 0 = b :=
    Option.some.inj ((hexDecode_hexEncode (List.replicate 16 0)).symm.trans hb)
  rw [hpi, ← hb']
  decide +kernel

/-- A request that is posted, broken off, and processed again. -/
def resumedRun : List Op :=
  [.submit (smallRequest [] 1 1 0), .process 0 crashing, .process 0 resuming]

theorem operator_sequencer_agree_small :
    (run (step id) (World.start smallDb) resumedRun).approvals ≠ [] ∧
      (run (step id) (World.start smallDb) resumedRun).Agrees id := by
  obtain ⟨db, hs⟩ := small_stored id [] 1 1 0
  obtain ⟨oid, hoid⟩ := hs.output
  obtain ⟨p, hp⟩ : ∃ p, prepareSpend id db (requestRow (smallRequest [] 1 1 0) [] 0) = .ok p :=
    small_prepare id hs.small (by decide) hoid
  obtain ⟨inotes, assetId, accin, inotesValue, onotesValue, balance, hd⟩ := prepareSpend_eq_ok hp
  have hcrash := step_crashing (w := World.start db) hs.request rfl hp
  obtain ⟨q, final, -, -, hresume⟩ := small_process id
    (w := (World.start db).post p.txReq crashing.post) hs.small (by decide) hoid hs.request
    resuming_goesOn rfl
  have hhonest : Along (step id) (Honest id) (World.start smallDb) resumedRun := by
    refine ⟨trivial, ?_⟩
    rw [attempt_ok hs.step]
    refine ⟨honest_crashing rfl, ?_⟩
    rw [attempt_ok hcrash]
    exact ⟨honest_resuming hs.request (List.mem_singleton_self _) (prepared_hasLeaf hp), trivial⟩
  have horderly : Along (step id) (Orderly id) (World.start smallDb) resumedRun := by
    refine ⟨trivial, ?_⟩
    rw [attempt_ok hs.step]
    refine ⟨nofun, ?_⟩
    rw [attempt_ok hcrash]
    refine ⟨fun _ _ _ row _ t ht _ => ?_, trivial⟩
    rw [List.mem_singleton.mp ht]
    exact hd.tx_id
  refine ⟨?_, operator_sequencer_agree id (small_identified id) ?_ hhonest horderly⟩
  · rw [resumedRun, run_cons, attempt_ok hs.step, run_cons, attempt_ok hcrash, run_cons,
      attempt_ok hresume, run_nil]
    exact nofun
  · exact fun row hrow => absurd hrow List.not_mem_nil

/-- Two requests of the account are stored. -/
structure TwoStored (perm : State → State) (db : Database) : Prop where
  small : Small db
  output : ∀ b ∈ [(1 : Byte), 2], ∃ oid,
    db.outputNotes.find (noteId b) = some (outputNoteRow (smallOutput 1 b 0) oid)
  first : db.spendTxRequests.find 0 = some (requestRow (smallRequest [] 1 1 0) [] 0)
  second : db.spendTxRequests.find 1 = some (requestRow (smallRequest [] 1 2 0) [] 1)
  along : ∀ {P : World → Op → Prop} {ops : List Op}, (∀ w req, P w (.submit req)) →
    Along (step perm) P (World.start db) ops → Along (step perm) P (World.start smallDb)
      (.submit (smallRequest [] 1 1 0) :: .submit (smallRequest [] 1 2 0) :: ops)
  run : ∀ ops, Lib.run (step perm) (World.start smallDb)
    (.submit (smallRequest [] 1 1 0) :: .submit (smallRequest [] 1 2 0) :: ops) =
      Lib.run (step perm) (World.start db) ops

theorem two_stored (perm : State → State) : ∃ db, TwoStored perm db := by
  obtain ⟨db₁, hs⟩ := small_stored perm [] 1 1 0
  obtain ⟨oid, hoid⟩ := hs.output
  have hunused : db₁.spendTxRequests.find db₁.spendTxRequests.serial = none := by
    rw [hs.serial]
    exact hs.unused 1 one_ne_zero
  obtain ⟨requests, outputs, hrequests, houtputs, hstep⟩ :=
    small_step_submit perm [] 1 2 0 (w := World.start db₁) hs.small (hs.free 2 (by decide)) hunused
  have hfind : ∀ k, requests.find k = if 1 = k then some (requestRow (smallRequest [] 1 2 0) [] 1)
      else db₁.spendTxRequests.find k := by
    intro k
    have h := Table.find_insert (k := k) hrequests
    simp only [World.start, hs.serial] at h
    exact h
  refine ⟨{ db₁ with outputNotes := outputs, spendTxRequests := requests },
    ⟨hs.small.accounts, hs.small.input_notes⟩, ?_, ?_, ?_, ?_, ?_⟩
  · intro b hb
    rw [List.mem_cons, List.mem_singleton] at hb
    rcases hb with rfl | rfl
    · have hne : noteId 2 ≠ noteId 1 := noteId_ne (by decide)
      exact ⟨oid, (Table.find_insert houtputs).trans ((if_neg hne).trans hoid)⟩
    · exact ⟨_, (Table.find_insert houtputs).trans (if_pos rfl)⟩
  · exact (hfind 0).trans hs.request
  · exact hfind 1
  · intro P ops hsubmit halong
    refine ⟨hsubmit _ _, ?_⟩
    rw [attempt_ok hs.step]
    refine ⟨hsubmit _ _, ?_⟩
    rw [attempt_ok hstep]
    exact halong
  · intro ops
    rw [run_cons, attempt_ok hs.step, run_cons, attempt_ok hstep]
    rfl

/-- The second output of a small transaction is a dummy of its request. -/
theorem small_outputs {db : Database} {sig : List Byte} {k oid : ℕ} {b r : Byte}
    (hnote : db.outputNotes.find (noteId b) = some (outputNoteRow (smallOutput k b r) oid))
    (hp : prepareSpend perm db (requestRow (smallRequest sig k b r) sig i) = .ok p) :
    p.txReq.outputNotes[1]? = some (hashToHex (doubleHashNative perm (seedHash b))) := by
  obtain ⟨inotes, assetId, accin, inotesValue, onotesValue, balance, hd⟩ := prepareSpend_eq_ok hp
  obtain ⟨comms, dcomms, hcomms, hdcomms, hout⟩ := hd.outputs
  have honotes : p.onotes = [outputNoteRow (smallOutput k b r) oid] :=
    Except.ok.inj (hd.get_onotes.symm.trans (small_getOnotes hnote))
  have hdummy : dummyHash perm (dummySeed b) = .ok (doubleHashNative perm (seedHash b)) := by
    rw [dummyHash, hexToHashChecked_dummySeed, ok_bind]
    rfl
  have hseeds : dcomms = List.replicate (NOTE_BATCH - 1) (doubleHashNative perm (seedHash b)) :=
    Except.ok.inj (hdcomms.symm.trans (mapM_replicate hdummy _))
  rw [honotes] at hcomms
  obtain ⟨comm, rfl⟩ : ∃ comm, comms = [comm] := by
    rw [mapM_eq_ok] at hcomms
    exact List.length_eq_one_iff.mp hcomms.length_eq.symm
  rw [hout, hseeds]
  rfl

/-- Two requests of one account, where the operator breaks off after it posted the first and then
meets the conflict with the second. -/
def conflictRun : List Op :=
  [.submit (smallRequest [] 1 1 0), .submit (smallRequest [] 1 2 0), .process 0 crashing,
    .process 1 resuming]

/-- The second request is approved, and no transaction with its output notes was accepted. -/
theorem operator_sequencer_disagree :
    Along (step id) (Honest id) (World.start smallDb) conflictRun ∧
    (∃ row ∈ (run (step id) (World.start smallDb) conflictRun).db.spendTxRequests.rows,
      row.id = 1 ∧ row.status = .approved) ∧
    ∃ t ∈ (run (step id) (World.start smallDb) conflictRun).approvals, t.txId = spendTxId 1 ∧
      ∀ t' ∈ (run (step id) (World.start smallDb) conflictRun).accepted,
        t'.outputNotes ≠ t.outputNotes := by
  obtain ⟨db, hs⟩ := two_stored id
  obtain ⟨oid, hoid⟩ := hs.output 1 (by decide)
  obtain ⟨oid', hoid'⟩ := hs.output 2 (by decide)
  obtain ⟨p, hp⟩ : ∃ p, prepareSpend id db (requestRow (smallRequest [] 1 1 0) [] 0) = .ok p :=
    small_prepare id hs.small (by decide) hoid
  have hcrash := step_crashing (w := World.start db) hs.first rfl hp
  obtain ⟨q, ⟨db', cross⟩, hq, hfinal, hresume⟩ := small_process id
    (w := (World.start db).post p.txReq crashing.post) hs.small (by decide) hoid' hs.second
    resuming_goesOn rfl
  have hrun : run (step id) (World.start smallDb) conflictRun =
      ((World.start db).post p.txReq crashing.post).commit (requestRow (smallRequest [] 1 2 0) [] 1)
        q.txReq (db', cross) [] := by
    rw [conflictRun, hs.run, run_cons, attempt_ok hcrash, run_cons, attempt_ok hresume, run_nil]
    rfl
  obtain ⟨inotes, assetId, accin, inotesValue, onotesValue, balance, hd⟩ := prepareSpend_eq_ok hq
  refine ⟨hs.along (fun _ _ => trivial) ?_, ?_, ?_⟩
  · refine ⟨honest_crashing rfl, ?_⟩
    rw [attempt_ok hcrash]
    have hleaf := prepared_hasLeaf hp
    exact ⟨honest_resuming hs.second (List.mem_singleton_self _) hleaf, trivial⟩
  · rw [hrun]
    exact ⟨_, finalizeSpend_approved hfinal hs.second, rfl, rfl⟩
  · rw [hrun]
    refine ⟨q.txReq, List.mem_singleton_self _, hd.tx_id, fun t' ht' heq => ?_⟩
    have hdiffer : hashToHex (doubleHashNative id (seedHash 1)) ≠
        hashToHex (doubleHashNative id (seedHash 2)) := by decide +kernel
    rw [List.mem_singleton.mp ht'] at heq
    have hfirst := small_outputs hoid hp
    rw [heq, small_outputs hoid' hq] at hfirst
    exact hdiffer (Option.some.inj hfirst).symm

end Small

end Doxa.Subpool
