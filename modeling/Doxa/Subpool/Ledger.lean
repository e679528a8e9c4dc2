import Doxa.Subpool.Progress

/-!
# The ledger of a subpool

For each asset the balances of the accounts, the unspent input notes and the notes sent to
other subpools, less the notes received from them, are a constant of every run in which the
operator finalizes only sound requests: a request that names no input note twice, whose input notes are of
the asset of its output notes, whose notes for local accounts have free identifiers, and
whose other notes all reach the sequencer. The program checks none of this. Where it holds
every input note is credited at most once.
-/

namespace Doxa.Subpool

open Lib Client Circuit
open Contract (U256)

/-! ## The ledger -/

/-- The amount of a note in an asset. -/
def worth (a : F) (assetId amount : List Byte) : ℕ :=
  if assetId.length = 8 ∧ amount.length = 32 ∧ bytesToF assetId = a then (bytesToU256 amount).toNat
  else 0

/-- The same for columns in hexadecimal. -/
def hexWorth (a : F) (assetId amount : String) : ℕ :=
  match hexDecode assetId, hexDecode amount with
  | some assetIdBytes, some amountBytes => worth a assetIdBytes amountBytes
  | _, _ => 0

/-- The amount of an unconsumed approved input note. -/
def unspent (a : F) (r : InputNoteRow) : ℕ :=
  if r.status = .approved ∧ r.consume = false then worth a r.assetId r.amount else 0

def crossWorth (a : F) (note : CrossSubpoolNote) : ℕ := hexWorth a note.assetId note.amount

def incomingWorth (a : F) (note : IncomingNote) : ℕ := hexWorth a note.assetId note.amount

/-- The account balances and the unconsumed approved input notes. -/
def Database.holdings (db : Database) (a : F) : ℕ :=
  db.accounts.total (rowBalance a) + db.inputNotes.total (unspent a)

/-- Account balances and unspent notes, plus notes forwarded out, minus notes received. -/
def World.ledger (w : World) (a : F) : ℤ :=
  w.db.holdings a + (w.forwarded.map (crossWorth a)).sum - (w.received.map (incomingWorth a)).sum

/-! ## Sound requests -/

/-- What the handler makes sure of for each stored request. -/
structure SubmittedRow (db : Database) (row : SpendTxRow) : Prop where
  distinct : row.onoteIdentifiers.Nodup
  one_asset : ∃ assetId, ∀ i ∈ row.onoteIdentifiers,
    ∃ o, db.outputNotes.find i = some o ∧ o.assetId = assetId

def Database.Submitted (db : Database) : Prop := ∀ row ∈ db.spendTxRequests.rows, SubmittedRow db row

/-- The notes of a request are ones it may spend and create. -/
structure SoundRow (db : Database) (row : SpendTxRow) : Prop where
  distinct : row.inoteIdentifiers.Nodup
  one_asset : ∀ i ∈ row.inoteIdentifiers, ∀ r, db.inputNotes.find i = some r →
    ∀ j ∈ row.onoteIdentifiers, ∀ o, db.outputNotes.find j = some o →
      bytesToF r.assetId = bytesToF o.assetId
  free : ∀ j ∈ row.onoteIdentifiers, ∀ o, db.outputNotes.find j = some o →
    db.IsLocal o.recipientAddress → db.inputNotes.find j = none

/-- The number of notes the request has for other subpools. -/
def Database.crossCount (db : Database) (row : SpendTxRow) : ℕ :=
  (row.onoteIdentifiers.filterMap db.outputNotes.find).countP fun o => ¬ db.IsLocal o.recipientAddress

/-- The sequencer accepts each of them. -/
def AllDelivered (n : ℕ) (deliveries : List Delivery) : Prop :=
  n ≤ deliveries.length ∧ ∀ d ∈ deliveries.take n, d = .accepted

/-- A finalized request is sound and its notes arrive; an incoming note is known already or has a
free identifier. -/
def Sound (w : World) : Op → Prop
  | .process id c => c.post.GoesOn → c.commits = true →
    ∀ row, w.db.spendTxRequests.find id = some row →
      SoundRow w.db row ∧ AllDelivered (w.db.crossCount row) c.deliveries
  | .receive note => note ∈ w.received ∨ w.db.inputNotes.find note.identifier = none
  | _ => True

/-! ## Worth -/

theorem crossWorth_crossNote (a : F) (o : OutputNoteRow) (sp : ℕ) :
    crossWorth a (crossNote o sp) = worth a o.assetId o.amount := by
  unfold crossWorth hexWorth crossNote
  simp only [hexDecode_hexEncode]

/-- Notes of one asset are worth the sum of their values in it, and nothing in another. -/
theorem sum_worth {ρ : Type} {value : ρ → Except Failure U256} {notes : List ρ} {s : U256} {A : F}
    (assetId amount : ρ → List Byte) (hsum : sumValues value notes = .ok s)
    (hvalue : ∀ n v, value n = .ok v → (amount n).length = 32 ∧ bytesToU256 (amount n) = v)
    (hasset : ∀ n ∈ notes, (assetId n).length = 8 ∧ bytesToF (assetId n) = A) (a : F) :
    (notes.map fun n => worth a (assetId n) (amount n)).sum = if a = A then s.toNat else 0 := by
  split
  · rename_i ha
    refine (sumValues_eq_ok hsum fun n hn v hv => ?_).symm
    obtain ⟨hlen, hamount⟩ := hvalue n v hv
    obtain ⟨hlen', hid⟩ := hasset n hn
    rw [worth, if_pos ⟨hlen', hlen, hid.trans ha.symm⟩, hamount]
  · rename_i ha
    refine List.sum_eq_zero fun x hx => ?_
    obtain ⟨n, hn, rfl⟩ := List.mem_map.mp hx
    exact if_neg fun h => ha (h.2.2.symm.trans (hasset n hn).2)

/-! ## Consuming and settling -/

/-- Consuming different notes takes what they are worth. -/
theorem foldl_consume_total {row : SpendTxRow} {ids : List String} {inotes : List InputNoteRow}
    {db : Database} (h : ids.mapM (row.getInote db) = .ok inotes) (hnodup : ids.Nodup) (a : F) :
    (ids.foldl Database.consumeInputNote db).inputNotes.total (unspent a) +
      (inotes.map fun r => worth a r.assetId r.amount).sum = db.inputNotes.total (unspent a) := by
  induction ids generalizing db inotes with
  | nil =>
      rw [List.mapM_nil, pure_eq_ok] at h
      rw [← h, List.foldl_nil, List.map_nil, List.sum_nil, Nat.add_zero]
  | cons i ids ih =>
      rw [List.nodup_cons] at hnodup
      rw [List.mapM_cons, bind_eq_ok] at h
      obtain ⟨r, hr, h⟩ := h
      obtain ⟨inotes', hrest, h⟩ := bind_eq_ok.mp h
      obtain rfl := pure_eq_ok.mp h
      obtain ⟨hfind, hstatus, hconsume, -⟩ := getInote_eq_ok.mp hr
      have hkeep : ids.mapM (row.getInote (db.consumeInputNote i)) = .ok inotes' := by
        rw [← hrest]
        refine mapM_congr fun j hj => getInote_congr ?_
        have hne : j ≠ i := fun heq => hnodup.1 (heq ▸ hj)
        rw [Database.consumeInputNote, Table.find_update_ne hne]
      have hold : unspent a r = worth a r.assetId r.amount := if_pos ⟨hstatus, hconsume⟩
      have hnew : unspent a (Database.consumedNote r) = 0 := if_neg fun h => by cases h.2
      have hupdate : (db.consumeInputNote i).inputNotes.total (unspent a) + unspent a r =
          db.inputNotes.total (unspent a) + unspent a (Database.consumedNote r) :=
        Table.total_update Database.consumedNote_identifier hfind
      have hrest' := ih hkeep hnodup.2
      rw [List.foldl_cons, List.map_cons, List.sum_cons]
      omega

section Insertion

variable {db : Database} {identifier : String} {assetId amount : List Byte}
  {recipientAddress senderAddress : String} {memo : List Byte}

/-- A note with a free identifier is new. -/
theorem insertApproved_free (h : db.inputNotes.find identifier = none) :
    db.inputNotes.insert (Database.approvedNote identifier assetId amount recipientAddress
      senderAddress memo) = some (db.insertApprovedInputNote identifier assetId amount
        recipientAddress senderAddress memo).inputNotes := by
  rcases Table.insertOrIgnore_cases db.inputNotes (Database.approvedNote identifier assetId amount
    recipientAddress senderAddress memo) with ⟨-, htaken⟩ | hins
  · have hkey : (Database.approvedNote identifier assetId amount recipientAddress senderAddress memo
        db.inputNotes.serial).identifier = identifier := rfl
    rw [hkey, h] at htaken
    cases htaken
  · exact hins

/-- A note with a known identifier is ignored. -/
theorem insertApproved_taken {r : InputNoteRow} (h : db.inputNotes.find identifier = some r) :
    db.insertApprovedInputNote identifier assetId amount recipientAddress senderAddress memo = db := by
  unfold Database.insertApprovedInputNote
  have hkey : (Database.approvedNote identifier assetId amount recipientAddress senderAddress memo
      db.inputNotes.serial).identifier = identifier := rfl
  rw [Table.insertOrIgnore_taken (r := r) (by rw [hkey, h])]

theorem insertApproved_total (h : db.inputNotes.find identifier = none) (a : F) :
    (db.insertApprovedInputNote identifier assetId amount recipientAddress senderAddress
      memo).inputNotes.total (unspent a) = db.inputNotes.total (unspent a) + worth a assetId amount := by
  rw [Table.total_insert (insertApproved_free h)]
  exact congrArg _ (if_pos ⟨rfl, rfl⟩)

theorem insertApproved_find_ne (h : db.inputNotes.find identifier = none) {k : String}
    (hk : k ≠ identifier) : (db.insertApprovedInputNote identifier assetId amount recipientAddress
      senderAddress memo).inputNotes.find k = db.inputNotes.find k := by
  rw [Table.find_insert (insertApproved_free h), if_neg]
  exact fun heq => hk heq.symm

end Insertion

/-- Settling different notes with free identifiers adds what they are worth, here or to the
notes for other subpools. -/
theorem foldlM_settle_total {onotes : List OutputNoteRow} {db db' : Database}
    {cross cross' : List CrossSubpoolNote}
    (h : onotes.foldlM settleOnote (db, cross) = .ok (db', cross'))
    (hnodup : (onotes.map OutputNoteRow.identifier).Nodup)
    (hfree : ∀ o ∈ onotes, db.IsLocal o.recipientAddress → db.inputNotes.find o.identifier = none)
    (a : F) :
    db'.inputNotes.total (unspent a) + (cross'.map (crossWorth a)).sum =
      db.inputNotes.total (unspent a) + (cross.map (crossWorth a)).sum +
        (onotes.map fun o => worth a o.assetId o.amount).sum := by
  induction onotes generalizing db cross with
  | nil =>
      rw [List.foldlM_nil, pure_eq_ok, Prod.mk.injEq] at h
      rw [h.1, h.2, List.map_nil, List.sum_nil, Nat.add_zero]
  | cons o onotes ih =>
      rw [List.map_cons, List.nodup_cons] at hnodup
      rw [List.foldlM_cons, bind_eq_ok] at h
      obtain ⟨⟨db₁, cross₁⟩, ho, hrest⟩ := h
      rw [List.map_cons, List.sum_cons]
      rcases settleOnote_cases ho with ⟨hlocal, rfl, rfl⟩ | ⟨-, rfl, sp, rfl⟩
      · have hnone := hfree o List.mem_cons_self hlocal
        have hfree' : ∀ o' ∈ onotes, db.IsLocal o'.recipientAddress →
            (db.insertApprovedInputNote o.identifier o.assetId o.amount o.recipientAddress
              o.senderAddress o.memo).inputNotes.find o'.identifier = none := by
          intro o' ho' hlocal'
          have hne : o'.identifier ≠ o.identifier :=
            fun heq => hnodup.1 (heq ▸ List.mem_map_of_mem ho')
          rw [insertApproved_find_ne hnone hne]
          exact hfree o' (List.mem_cons_of_mem o ho') hlocal'
        rw [ih hrest hnodup.2 hfree', insertApproved_total hnone]
        omega
      · rw [ih hrest hnodup.2 fun o' ho' => hfree o' (List.mem_cons_of_mem o ho'), List.map_append,
          List.sum_append, List.map_singleton, List.sum_singleton, crossWorth_crossNote]
        omega

/-- As many notes are kept for forwarding as have no local recipient. -/
theorem foldlM_settle_length {onotes : List OutputNoteRow} {db db' : Database}
    {cross cross' : List CrossSubpoolNote}
    (h : onotes.foldlM settleOnote (db, cross) = .ok (db', cross')) :
    cross'.length = cross.length + onotes.countP fun o => ¬ db.IsLocal o.recipientAddress := by
  induction onotes generalizing db cross with
  | nil =>
      rw [List.foldlM_nil, pure_eq_ok, Prod.mk.injEq] at h
      rw [h.2, List.countP_nil, Nat.add_zero]
  | cons o onotes ih =>
      rw [List.foldlM_cons, bind_eq_ok] at h
      obtain ⟨⟨db₁, cross₁⟩, ho, hrest⟩ := h
      rcases settleOnote_cases ho with ⟨hlocal, rfl, rfl⟩ | ⟨hother, rfl, sp, rfl⟩
      · rw [ih hrest, List.countP_cons_of_neg (by simpa using hlocal)]
        rfl
      · rw [ih hrest, List.countP_cons_of_pos (by simpa using hother), List.length_append,
          List.length_singleton]
        omega

/-! ## The commit -/

section Commit

variable {perm : State → State} {db db' : Database} {row : SpendTxRow} {p : PreparedSpend}
  {inotes : List InputNoteRow} {assetId : F} {accin : StandardAccount}
  {inotesValue onotesValue balance : U256} {sigBytes : List Byte} {cross : List CrossSubpoolNote}

theorem spendAsset_eq_ok {onotes : List OutputNoteRow} (h : spendAsset onotes = .ok assetId) :
    ∃ o ∈ onotes, o.assetId.length = 8 ∧ bytesToF o.assetId = assetId := by
  cases onotes with
  | nil => cases h
  | cons o onotes => exact ⟨o, List.mem_cons_self, noteAssetId_eq_ok.mp h⟩

/-- All output notes of a stored request are of the asset of the transaction. -/
theorem Derived.onote_asset (hd : Derived perm db row p inotes assetId accin inotesValue onotesValue balance)
    (hsub : SubmittedRow db row) :
    ∀ o ∈ p.onotes, o.assetId.length = 8 ∧ bytesToF o.assetId = assetId := by
  obtain ⟨o₁, ho₁, hlen, hasset⟩ := spendAsset_eq_ok hd.asset
  obtain ⟨bytes, hbytes⟩ := hsub.one_asset
  have hsame : ∀ o ∈ p.onotes, o.assetId = bytes := by
    intro o ho
    obtain ⟨i, hi, hfind⟩ := exists_of_mem_right (getOnotes_eq_ok.mp hd.get_onotes) ho
    obtain ⟨o', hfind', hasset'⟩ := hbytes i hi
    rw [hfind'] at hfind
    rw [← Option.some.inj hfind, hasset']
  intro o ho
  rw [hsame o ho, ← hsame o₁ ho₁]
  exact ⟨hlen, hasset⟩

/-- The input notes of a sound request are of that asset too. -/
theorem Derived.inote_asset (hd : Derived perm db row p inotes assetId accin inotesValue onotesValue balance)
    (hsound : SoundRow db row) :
    ∀ r ∈ inotes, r.assetId.length = 8 ∧ bytesToF r.assetId = assetId := by
  obtain ⟨o, ho, -, hasset⟩ := spendAsset_eq_ok hd.asset
  obtain ⟨j, hj, hfindo⟩ := exists_of_mem_right (getOnotes_eq_ok.mp hd.get_onotes) ho
  intro r hr
  have hlen := (standardNote_eq_ok.mp (hd.inote r hr)).2.1
  obtain ⟨i, hi, hget⟩ := exists_of_mem_right (getInotes_eq_ok.mp hd.get_inotes) hr
  have hfind := (getInote_eq_ok.mp hget).1
  exact ⟨hlen, (hsound.one_asset i hi r hfind j hj o hfindo).trans hasset⟩

/-- The row of the sender changes by the difference of the notes. -/
theorem Derived.rowBalance (hd : Derived perm db row p inotes assetId accin inotesValue onotesValue balance)
    {ins : AccountInsert} (hins : accountToInsert perm p.accout p.accRow.ethAddress = .ok ins) (a : F) :
    rowBalance a (Database.setColumns ins p.accRow) + (if a = assetId then onotesValue.toNat else 0) =
      rowBalance a p.accRow + if a = assetId then inotesValue.toNat else 0 := by
  obtain ⟨prev, hast⟩ := hd.ast
  obtain ⟨-, i, hassets⟩ := insertOrUpdateAsset_eq_ok hast
  have hread := (accountFromRow_eq_ok hd.from_row).balance a
  have hbalance := accoutBalance_eq_ok hd.out_balance
  rw [rowBalance_setColumns hins, hassets, amountIn_insert, Subpool.rowBalance, ← hread]
  split
  · rename_i ha
    rw [ha]
    exact hbalance
  · rfl

/-- Finalizing a sound request keeps the holdings and what leaves for other subpools. -/
theorem finalizeSpend_holdings
    (hd : Derived perm db row p inotes assetId accin inotesValue onotesValue balance)
    (h : finalizeSpend perm db row p sigBytes = .ok (db', cross)) (hsub : SubmittedRow db row)
    (hsound : SoundRow db row) (a : F) :
    db'.holdings a + (cross.map (crossWorth a)).sum = db.holdings a := by
  obtain ⟨ins, hins, hsettle⟩ := finalizeSpend_eq_ok h
  have honotes := getOnotes_eq_ok.mp hd.get_onotes
  have hids := Table.map_key_of_forall₂ honotes
  have hfree : ∀ o ∈ p.onotes, (beforeSettling db row sigBytes ins).IsLocal o.recipientAddress →
      (beforeSettling db row sigBytes ins).inputNotes.find o.identifier = none := by
    intro o ho hlocal
    obtain ⟨j, hj, hfind⟩ := exists_of_mem_right honotes ho
    have hnone := hsound.free j hj o hfind (beforeSettling_isLocal.mp hlocal)
    rw [← Table.key_of_find hfind] at hnone
    exact (foldl_consume_find _ _ _).trans (by rw [hnone, Option.map_none])
  have hsettled := foldlM_settle_total hsettle (by rw [hids]; exact hsub.distinct) hfree a
  have hconsumed := foldl_consume_total hd.get_inotes hsound.distinct a
  have hbefore : (beforeSettling db row sigBytes ins).inputNotes =
      (row.inoteIdentifiers.foldl Database.consumeInputNote db).inputNotes := rfl
  have haccounts : db'.accounts.total (Subpool.rowBalance a) + Subpool.rowBalance a p.accRow =
      db.accounts.total (Subpool.rowBalance a) +
        Subpool.rowBalance a (Database.setColumns ins p.accRow) := by
    rw [(foldlM_settleOnote hsettle).accounts, beforeSettling_accounts]
    exact Table.total_update _ hd.account
  have hin := sum_worth InputNoteRow.assetId InputNoteRow.amount hd.in_value
    (fun _ _ hv => noteValue_eq_ok.mp hv) (hd.inote_asset hsound) a
  have hout := sum_worth OutputNoteRow.assetId OutputNoteRow.amount hd.out_value
    (fun _ _ hv => noteValue_eq_ok.mp hv) (hd.onote_asset hsub) a
  have hrow := hd.rowBalance hins a
  rw [hbefore, hout, List.map_nil, List.sum_nil] at hsettled
  rw [hin] at hconsumed
  unfold Database.holdings
  omega

end Commit

/-! ## Runs -/

section Runs

variable {perm : State → State} {w w' : World}

/-- The requests are as the handler stores them, received notes are known and credited notes
are consumed. -/
structure World.Regular (w : World) : Prop where
  submitted : w.db.Submitted
  received : ∀ note ∈ w.received, ∃ r, w.db.inputNotes.find note.identifier = some r
  credited : w.credited.Nodup
  consumed : ∀ i ∈ w.credited, ∃ r, w.db.inputNotes.find i = some r ∧ r.consume = true

theorem SubmittedRow.mono {db db' : Database} {row : SpendTxRow} (h : SubmittedRow db row)
    (hkeep : ∀ k o, db.outputNotes.find k = some o → db'.outputNotes.find k = some o) :
    SubmittedRow db' row := by
  obtain ⟨assetId, hasset⟩ := h.one_asset
  refine ⟨h.distinct, assetId, fun i hi => ?_⟩
  obtain ⟨o, hfind, ho⟩ := hasset i hi
  exact ⟨o, hkeep i o hfind, ho⟩

/-- One asset id stands in all notes of an accepted request. -/
theorem sharedAssetId_eq_ok {req : SpendTxRequest} {a : F} (h : sharedAssetId req = .ok a) :
    ∃ s, ∀ note ∈ req.outputNotes, note.assetId = s := by
  unfold sharedAssetId at h
  obtain ⟨s, -, h₁⟩ := bind_eq_ok.mp h
  obtain ⟨hsame, -⟩ := revertIf_bind_eq_ok.mp h₁
  refine ⟨s, fun note hnote => ?_⟩
  by_contra hne
  exact hsame ⟨note.assetId, List.mem_map_of_mem (List.mem_append_right _ hnote), hne⟩

/-- A stored request keeps all requests as the handler stores them. -/
theorem Stored.submitted {db db' : Database} {req : SpendTxRequest} {sig : List Byte}
    {outs : List DecodedOutput} (hs : Stored db db' req sig outs) (h : db.Submitted) :
    db'.Submitted := by
  obtain ⟨hnodup, hkeep, -, hfound⟩ := foldlM_insertOutputNote hs.output_notes
  obtain ⟨assetId, hasset⟩ := hs.asset
  obtain ⟨s, hs'⟩ := sharedAssetId_eq_ok hasset
  have hdecoded := mapM_eq_ok.mp hs.decoded
  have hids : outs.map DecodedOutput.identifier = req.outputNotes.map NotePayload.identifier :=
    map_eq_of_mapM hs.decoded fun _ _ hd => (decodeOutputNote_eq_ok hd).1
  intro row hrow
  rw [(Table.insert_eq_some hs.request).2, List.mem_append, List.mem_singleton] at hrow
  rcases hrow with hrow | rfl
  · exact (h row hrow).mono hkeep
  · refine ⟨by rw [requestRow, ← hids]; exact hnodup, (hexDecode s).getD [], fun i hi => ?_⟩
    rw [requestRow, ← hids] at hi
    obtain ⟨out, hout, rfl⟩ := List.mem_map.mp hi
    obtain ⟨id, hfind⟩ := hfound out hout
    obtain ⟨note, hnote, hdec⟩ := exists_of_mem_right hdecoded hout
    have hbytes := (decodeOutputNote_eq_ok hdec).2
    rw [hs' note hnote] at hbytes
    exact ⟨_, hfind, by rw [outputNoteRow, hbytes, Option.getD_some]⟩

theorem finalizeSpend_submitted {db db' : Database} {row : SpendTxRow} {p : PreparedSpend}
    {sigBytes : List Byte} {cross : List CrossSubpoolNote}
    (h : finalizeSpend perm db row p sigBytes = .ok (db', cross)) (hdb : db.Submitted) :
    db'.Submitted := by
  obtain ⟨ins, -, hsettle⟩ := finalizeSpend_eq_ok h
  have hs := foldlM_settleOnote hsettle
  have hnotes : db'.outputNotes = db.outputNotes :=
    hs.output_notes.trans (beforeSettling_outputNotes db row sigBytes ins)
  intro r hr
  rw [hs.requests, beforeSettling_requests] at hr
  obtain ⟨r₀, hr₀, rfl⟩ := List.mem_map.mp hr
  have hrow : SubmittedRow db' r₀ := (hdb r₀ hr₀).mono fun k o ho => by rwa [hnotes]
  split
  · exact ⟨hrow.distinct, hrow.one_asset⟩
  · exact hrow

/-- Deliveries that all succeed forward all notes. -/
theorem forwardNotes_eq {notes : List CrossSubpoolNote} {deliveries : List Delivery}
    (h : AllDelivered notes.length deliveries) : forwardNotes notes deliveries = notes := by
  induction notes generalizing deliveries with
  | nil => cases deliveries <;> rfl
  | cons note notes ih =>
      obtain ⟨hlen, hall⟩ := h
      cases deliveries with
      | nil => simp at hlen
      | cons d deliveries =>
          have hd : d = .accepted := hall d (by simp)
          subst hd
          rw [forwardNotes, ih]
          refine ⟨by simpa using hlen, fun d hd => hall d ?_⟩
          rw [List.length_cons, List.take_succ_cons]
          exact List.mem_cons_of_mem _ hd

@[simp] theorem post_credited (w : World) (txReq : TransactionRequest) (re : Reaction) :
    (w.post txReq re).credited = w.credited := by
  unfold World.post
  split <;> rfl

@[simp] theorem post_forwarded (w : World) (txReq : TransactionRequest) (re : Reaction) :
    (w.post txReq re).forwarded = w.forwarded := by
  unfold World.post
  split <;> rfl

@[simp] theorem post_received (w : World) (txReq : TransactionRequest) (re : Reaction) :
    (w.post txReq re).received = w.received := by
  unfold World.post
  split <;> rfl

/-- As many notes go to other subpools as the request has for them. -/
theorem finalizeSpend_crossCount {db db' : Database} {row : SpendTxRow} {p : PreparedSpend}
    {sigBytes : List Byte} {cross : List CrossSubpoolNote} (hget : row.getOnotes db = .ok p.onotes)
    (h : finalizeSpend perm db row p sigBytes = .ok (db', cross)) :
    db.crossCount row = cross.length := by
  obtain ⟨ins, -, hsettle⟩ := finalizeSpend_eq_ok h
  rw [foldlM_settle_length hsettle, List.length_nil, Nat.zero_add, Database.crossCount,
    Table.filterMap_find_of_forall₂ (getOnotes_eq_ok.mp hget)]
  refine List.countP_congr fun o _ => ?_
  simp only [beforeSettling_isLocal]

/-- A finalized request keeps the world regular and the ledger as it is. -/
theorem commit_ledger {row : SpendTxRow} {p : PreparedSpend} {c : Circumstances}
    {final : Database × List CrossSubpoolNote} (hw : w.Regular)
    (hrow : w.db.spendTxRequests.find row.id = some row)
    (hp : prepareSpend perm w.db row = .ok p)
    (hfinal : finalizeSpend perm w.db row p (c.sign p.txHash) = .ok final)
    (hsound : SoundRow w.db row) (hall : AllDelivered (w.db.crossCount row) c.deliveries) :
    ((w.post p.txReq c.post).commit row p.txReq final c.deliveries).Regular ∧
      ∀ a, ((w.post p.txReq c.post).commit row p.txReq final c.deliveries).ledger a = w.ledger a := by
  obtain ⟨db', cross⟩ := final
  obtain ⟨inotes, assetId, accin, inotesValue, onotesValue, balance, hd⟩ := prepareSpend_eq_ok hp
  have hunspent : ∀ i ∈ row.inoteIdentifiers,
      ∃ r, w.db.inputNotes.find i = some r ∧ r.consume = false := by
    intro i hi
    obtain ⟨r, -, hget⟩ := exists_of_mem_left (getInotes_eq_ok.mp hd.get_inotes) hi
    obtain ⟨hfind, -, hconsume, -⟩ := getInote_eq_ok.mp hget
    exact ⟨r, hfind, hconsume⟩
  refine ⟨⟨finalizeSpend_submitted hfinal hw.submitted, ?_, ?_, ?_⟩, fun a => ?_⟩
  · intro note hnote
    rw [World.commit, post_received] at hnote
    obtain ⟨r, hr⟩ := hw.received note hnote
    exact ⟨_, finalizeSpend_find hfinal hr⟩
  · rw [World.commit, post_credited]
    refine List.Nodup.append hw.credited hsound.distinct fun i hi hi' => ?_
    obtain ⟨r, hr, hconsume⟩ := hw.consumed i hi
    obtain ⟨r', hr', hconsume'⟩ := hunspent i hi'
    rw [hr, Option.some.injEq] at hr'
    rw [hr', hconsume'] at hconsume
    cases hconsume
  · intro i hi
    rw [World.commit, post_credited, List.mem_append] at hi
    rcases hi with hi | hi
    · obtain ⟨r, hr, hconsume⟩ := hw.consumed i hi
      refine ⟨_, finalizeSpend_find hfinal hr, ?_⟩
      split
      · rfl
      · exact hconsume
    · obtain ⟨r, hr, -⟩ := hunspent i hi
      refine ⟨_, finalizeSpend_find hfinal hr, ?_⟩
      rw [if_pos hi]
      rfl
  · have hrows := hw.submitted row (Table.mem_of_find hrow)
    have hholdings := finalizeSpend_holdings hd hfinal hrows hsound a
    rw [finalizeSpend_crossCount hd.get_onotes hfinal] at hall
    unfold World.ledger World.commit
    simp only [post_forwarded, post_received, forwardNotes_eq hall, List.map_append, List.sum_append,
      ← hholdings]
    push_cast
    ring

/-- A note received for the first time is new, one received again is ignored. -/
theorem receive_ledger {note : IncomingNote} {assetIdBytes amountBytes memoBytes : List Byte}
    (hw : w.Regular) (hasset : hexDecode note.assetId = some assetIdBytes)
    (hamount : hexDecode note.amount = some amountBytes)
    (hsound : note ∈ w.received ∨ w.db.inputNotes.find note.identifier = none) :
    let w' : World := { w with
      db := w.db.insertApprovedInputNote note.identifier assetIdBytes amountBytes
        note.recipientAddress note.senderAddress memoBytes
      received := if note ∈ w.received then w.received else w.received ++ [note] }
    w'.Regular ∧ ∀ a, w'.ledger a = w.ledger a := by
  by_cases hmem : note ∈ w.received
  · obtain ⟨r, hr⟩ := hw.received note hmem
    simp only [insertApproved_taken hr, if_pos hmem]
    exact ⟨hw, fun _ => trivial⟩
  · have hnone := hsound.resolve_left hmem
    simp only [if_neg hmem]
    have hkeep : ∀ k r, w.db.inputNotes.find k = some r →
        (w.db.insertApprovedInputNote note.identifier assetIdBytes amountBytes
          note.recipientAddress note.senderAddress memoBytes).inputNotes.find k = some r :=
      fun k r hr => Table.find_insertOrIgnore hr
    refine ⟨⟨fun row hrow => (hw.submitted row hrow).mono fun _ _ ho => ho, ?_, hw.credited, ?_⟩,
      fun a => ?_⟩
    · intro note' hnote'
      rw [List.mem_append, List.mem_singleton] at hnote'
      rcases hnote' with hnote' | rfl
      · obtain ⟨r, hr⟩ := hw.received note' hnote'
        exact ⟨r, hkeep _ r hr⟩
      · exact ⟨_, (Table.find_insert (insertApproved_free hnone)).trans (if_pos rfl)⟩
    · intro i hi
      obtain ⟨r, hr, hconsume⟩ := hw.consumed i hi
      exact ⟨r, hkeep i r hr, hconsume⟩
    · have hworth : incomingWorth a note = worth a assetIdBytes amountBytes := by
        unfold incomingWorth hexWorth
        simp only [hasset, hamount]
      unfold World.ledger Database.holdings
      simp only [insertApproved_total hnone, List.map_append, List.sum_append, List.map_singleton,
        List.sum_singleton, hworth]
      push_cast
      have haccounts : (w.db.insertApprovedInputNote note.identifier assetIdBytes amountBytes
        note.recipientAddress note.senderAddress memoBytes).accounts = w.db.accounts := rfl
      rw [haccounts]
      ring

theorem step_ledger {o : Op} (hw : w.Regular) (hsound : Sound w o) (h : step perm o w = .ok w') :
    w'.Regular ∧ ∀ a, w'.ledger a = w.ledger a := by
  cases o with
  | submit req =>
      obtain ⟨db', sig, outs, hs, rfl⟩ := step_submit h
      refine ⟨⟨hs.submitted hw.submitted, ?_, hw.credited, ?_⟩, fun a => ?_⟩
      · rw [hs.input_notes]
        exact hw.received
      · rw [hs.input_notes]
        exact hw.consumed
      · unfold World.ledger Database.holdings
        rw [hs.accounts, hs.input_notes]
  | process id c =>
      obtain ⟨row, hrow, -, hproc⟩ := step_process h
      obtain rfl : row.id = id := Table.key_of_find hrow
      obtain ⟨p, hp, rfl | ⟨final, hgo, hcommits, hfinal, rfl⟩⟩ := processOneSpendTx_cases hproc
      · refine ⟨⟨?_, ?_, ?_, ?_⟩, fun a => ?_⟩
        · rw [post_db]
          exact hw.submitted
        · rw [post_db, post_received]
          exact hw.received
        · rw [post_credited]
          exact hw.credited
        · rw [post_db, post_credited]
          exact hw.consumed
        · rw [World.ledger, post_db, post_forwarded, post_received, World.ledger]
      · obtain ⟨hrowSound, hall⟩ := hsound hgo hcommits row hrow
        exact commit_ledger hw hrow hp hfinal hrowSound hall
  | receive note =>
      obtain ⟨assetIdBytes, amountBytes, memoBytes, hasset, hamount, rfl⟩ := step_receive h
      exact receive_ledger hw hasset hamount hsound
  | closeBatch =>
      obtain rfl := Except.ok.inj h
      exact ⟨⟨hw.submitted, hw.received, hw.credited, hw.consumed⟩, fun a => rfl⟩

end Runs

theorem start_regular {db : Database} (h : db.Submitted) : (World.start db).Regular :=
  ⟨h, nofun, List.nodup_nil, nofun⟩

/-- Along every run with sound steps the ledger of each asset is constant, and no input note is
credited twice. -/
theorem ledger_conserved (perm : State → State) {db : Database} (hdb : db.Submitted) {ops : List Op}
    (hops : Along (step perm) Sound (World.start db) ops) :
    (∀ a, (run (step perm) (World.start db) ops).ledger a = (World.start db).ledger a) ∧
      (run (step perm) (World.start db) ops).credited.Nodup := by
  have hinv : (run (step perm) (World.start db) ops).Regular ∧
      ∀ a, (run (step perm) (World.start db) ops).ledger a = (World.start db).ledger a := by
    refine run_inv_along (fun w => w.Regular ∧ ∀ a, w.ledger a = (World.start db).ledger a)
      ⟨start_regular hdb, fun a => rfl⟩ hops ?_
    rintro o - t t' ⟨hreg, hledger⟩ hsound hstep
    obtain ⟨hreg', hledger'⟩ := step_ledger hreg hsound hstep
    exact ⟨hreg', fun a => (hledger' a).trans (hledger a)⟩
  exact ⟨hinv.2, hinv.1.credited⟩

/-! ## The small subpool -/

section Small

variable {db : Database} {k : ℕ} {b r : Byte}

/-- Only the one note is known at first. -/
theorem small_find_none (hs : Small db) (hb : b ≠ 9) : db.inputNotes.find (noteId b) = none := by
  rw [hs.input_notes, Table.find_eq_none]
  intro n hn
  rw [List.mem_singleton.mp hn]
  exact noteId_ne (Ne.symm hb)

/-- The note for the account itself stays in the subpool. -/
theorem small_crossCount {perm : State → State} (hs : SmallStored perm db [] k b 0) :
    db.crossCount (requestRow (smallRequest [] k b 0) [] 0) = 0 := by
  obtain ⟨oid, hoid⟩ := hs.output
  have hlocal : db.IsLocal (outputNoteRow (smallOutput k b 0) oid).recipientAddress := by
    have hfind : db.accounts.find (outputNoteRow (smallOutput k b 0) oid).recipientAddress =
        some smallAccount := small_find_account hs.small
    rw [Database.IsLocal, hfind]
    rfl
  have hnotes : (requestRow (smallRequest [] k b 0) [] 0).onoteIdentifiers.filterMap db.outputNotes.find =
      [outputNoteRow (smallOutput k b 0) oid] := Table.filterMap_find_of_forall₂ (.cons hoid .nil)
  have hnot : ¬ decide (¬ db.IsLocal (outputNoteRow (smallOutput k b 0) oid).recipientAddress) = true :=
    fun h => of_decide_eq_true h hlocal
  rw [Database.crossCount, hnotes, List.countP_eq_zero]
  intro o ho
  rw [List.mem_singleton.mp ho]
  exact hnot

theorem small_submitted : smallDb.Submitted := nofun

/-- Spending the note once is sound. -/
theorem small_sound {perm : State → State} (hs : SmallStored perm db [] 1 1 0) :
    Sound (World.start db) (.process 0 (smoothly [])) := by
  intro _ _ row hrow
  have hrow' : some (requestRow (smallRequest [] 1 1 0) [] 0) = some row := hs.request.symm.trans hrow
  obtain rfl := Option.some.inj hrow'
  obtain ⟨oid, hoid⟩ := hs.output
  refine ⟨⟨List.nodup_singleton _, ?_, ?_⟩, ?_, ?_⟩
  · intro i hi n hn j hj o ho
    rw [List.mem_singleton.mp hi] at hn
    rw [List.mem_singleton.mp hj] at ho
    have hn' : some smallNote = some n := (small_find hs.small).symm.trans hn
    have ho' : some (outputNoteRow (smallOutput 1 1 0) oid) = some o := hoid.symm.trans ho
    rw [← Option.some.inj hn', ← Option.some.inj ho']
    rfl
  · intro j hj o ho _
    rw [List.mem_singleton.mp hj]
    exact small_find_none hs.small (by decide)
  · exact le_of_eq (small_crossCount hs)
  · intro d hd
    have hnil : (smoothly []).deliveries = [] := rfl
    rw [hnil, List.take_nil] at hd
    cases hd

/-- The small request runs to its end. -/
theorem small_run (perm : State → State) (hs : SmallStored perm db [] k b r) (hk : k ≤ NOTE_BATCH)
    {c : Circumstances} (hgo : c.post.GoesOn) (hcommits : c.commits = true) :
    ∃ p final, prepareSpend perm db (requestRow (smallRequest [] k b r) [] 0) = .ok p ∧
      finalizeSpend perm db (requestRow (smallRequest [] k b r) [] 0) p (c.sign p.txHash) = .ok final ∧
      run (step perm) (World.start smallDb) [.submit (smallRequest [] k b r), .process 0 c] =
        ((World.start db).post p.txReq c.post).commit (requestRow (smallRequest [] k b r) [] 0) p.txReq
          final c.deliveries := by
  obtain ⟨oid, hoid⟩ := hs.output
  obtain ⟨p, final, hp, hfinal, hstep⟩ :=
    small_process perm (w := World.start db) hs.small hk hoid hs.request hgo hcommits
  refine ⟨p, final, hp, hfinal, ?_⟩
  rw [run_cons, attempt_ok hs.step, run_cons, attempt_ok hstep, run_nil]

theorem ledger_conserved_small :
    (run (step id) (World.start smallDb)
      [.submit (smallRequest [] 1 1 0), .process 0 (smoothly [])]).credited = [noteId 9] ∧
    (run (step id) (World.start smallDb)
      [.submit (smallRequest [] 1 1 0), .process 0 (smoothly [])]).ledger 1 =
      (World.start smallDb).ledger 1 := by
  obtain ⟨db, hs⟩ := small_stored id [] 1 1 0
  have halong : Along (step id) Sound (World.start smallDb)
      [.submit (smallRequest [] 1 1 0), .process 0 (smoothly [])] := by
    refine ⟨trivial, ?_, trivial⟩
    rw [attempt_ok hs.step]
    exact small_sound hs
  refine ⟨?_, (ledger_conserved id small_submitted halong).1 1⟩
  obtain ⟨p, final, -, -, hrun⟩ := small_run id hs (by decide) (c := smoothly []) trivial rfl
  rw [hrun, World.commit, post_credited]
  rfl

theorem rowBalance_smallAccount (a : F) : rowBalance a smallAccount = 0 := by
  have hlisted : listedAssets smallAccount = ∅ := rfl
  rw [rowBalance, hlisted]
  rfl

theorem smallOutput_worth (oid : ℕ) (hk : k ≤ NOTE_BATCH) :
    worth 1 (outputNoteRow (smallOutput k b r) oid).assetId
      (outputNoteRow (smallOutput k b r) oid).amount = 5 * k := by
  have hvalue : bytesToU256 (outputNoteRow (smallOutput k b r) oid).amount = smallValue k :=
    bytesToU256_u256ToBytes _
  rw [worth, if_pos ⟨rfl, u256ToBytes_length _, bytesToF_assetOne⟩, hvalue, smallValue_toNat hk]

theorem small_holdings : smallDb.holdings 1 = 5 := by
  have hworth : unspent 1 smallNote = 5 := by
    have hvalue : bytesToU256 smallNote.amount = 5 := bytesToU256_u256ToBytes 5
    rw [unspent, if_pos ⟨rfl, rfl⟩, worth, if_pos ⟨rfl, u256ToBytes_length _, bytesToF_assetOne⟩,
      hvalue]
    rfl
  have hrows : smallDb.inputNotes.rows = [smallNote] ∧ smallDb.accounts.rows = [smallAccount] :=
    ⟨rfl, rfl⟩
  rw [Database.holdings, Table.total, Table.total, hrows.1, hrows.2, List.map_singleton,
    List.map_singleton, List.sum_singleton, List.sum_singleton, rowBalance_smallAccount, hworth]

/-- Consuming the note twice takes it once. -/
theorem small_consumed (hs : Small db) :
    ([noteId 9, noteId 9].foldl Database.consumeInputNote db).inputNotes.total (unspent 1) = 0 := by
  have hrows : ([noteId 9, noteId 9].foldl Database.consumeInputNote db).inputNotes.rows =
      [Database.consumedNote smallNote] := by
    have hkey : smallNote.identifier = noteId 9 := rfl
    simp only [List.foldl_cons, List.foldl_nil, Database.consumeInputNote, Table.update,
      hs.input_notes, smallDb, List.map_cons, List.map_nil, hkey, if_true,
      Database.consumedNote_identifier]
    rfl
  rw [Table.total, hrows, List.map_singleton, List.sum_singleton]
  exact if_neg fun h => by cases h.2

/-- The two credits of one note are there after the commit. -/
theorem small_spent_twice {perm : State → State} {db' : Database} {p : PreparedSpend}
    {sigBytes : List Byte} {cross : List CrossSubpoolNote} (hs : SmallStored perm db [] 2 1 0)
    (hp : prepareSpend perm db (requestRow (smallRequest [] 2 1 0) [] 0) = .ok p)
    (hfinal : finalizeSpend perm db (requestRow (smallRequest [] 2 1 0) [] 0) p sigBytes =
      .ok (db', cross)) : db'.holdings 1 = 10 := by
  obtain ⟨inotes, assetId, accin, inotesValue, onotesValue, balance, hd⟩ := prepareSpend_eq_ok hp
  obtain ⟨ins, hins, hsettle⟩ := finalizeSpend_eq_ok hfinal
  obtain ⟨oid, hoid⟩ := hs.output
  have honotes : p.onotes = [outputNoteRow (smallOutput 2 1 0) oid] :=
    Except.ok.inj (hd.get_onotes.symm.trans (small_getOnotes hoid))
  have hinotes : inotes = List.replicate 2 smallNote :=
    Except.ok.inj (hd.get_inotes.symm.trans (small_getInotes hs.small))
  have hasset : assetId = 1 := by
    have h := hd.asset
    rw [honotes] at h
    exact ((noteAssetId_eq_ok.mp h).2.symm.trans bytesToF_assetOne)
  have hrow : p.accRow = smallAccount :=
    Option.some.inj (hd.account.symm.trans (small_find_account hs.small))
  have hin : inotesValue.toNat = 10 := by
    obtain ⟨s, hs', hsum⟩ := small_in_value (k := 2) (by decide)
    have h := hd.in_value
    rw [hinotes, hs'] at h
    rw [← Except.ok.inj h, hsum]
  have hout : onotesValue.toNat = 10 := by
    have h := sumValues_eq_ok hd.out_value (g := fun o => (smallValue 2).toNat) ?_
    · rw [h, honotes]
      rfl
    · intro o ho v hv
      rw [honotes] at ho
      rw [List.mem_singleton.mp ho, smallOutput_value] at hv
      rw [← Except.ok.inj hv]
  have hbalance := hd.rowBalance hins 1
  rw [hasset, if_pos rfl, if_pos rfl, hin, hout, hrow, rowBalance_smallAccount] at hbalance
  have haccounts : db'.accounts.total (rowBalance 1) = 0 := by
    have hold : db.accounts.total (rowBalance 1) = 0 := by
      rw [hs.small.accounts]
      exact rowBalance_smallAccount 1
    have h := Table.total_update (g := rowBalance 1) (Database.setColumns_address ins) hd.account
    rw [hrow, rowBalance_smallAccount, hold] at h
    rw [(foldlM_settleOnote hsettle).accounts, beforeSettling_accounts]
    omega
  have hcross : cross = [] := by
    refine List.length_eq_zero_iff.mp ?_
    rw [← finalizeSpend_crossCount hd.get_onotes hfinal, small_crossCount hs]
  have hfree : ∀ o ∈ p.onotes, (beforeSettling db (requestRow (smallRequest [] 2 1 0) [] 0) sigBytes
      ins).IsLocal o.recipientAddress → (beforeSettling db (requestRow (smallRequest [] 2 1 0) [] 0)
        sigBytes ins).inputNotes.find o.identifier = none := by
    intro o ho _
    rw [honotes] at ho
    rw [List.mem_singleton.mp ho]
    refine (foldl_consume_find _ db (noteId 1)).trans ?_
    rw [small_find_none hs.small (by decide), Option.map_none]
  have hsettled := foldlM_settle_total hsettle (by rw [honotes]; exact List.nodup_singleton _) hfree 1
  have hbefore : (beforeSettling db (requestRow (smallRequest [] 2 1 0) [] 0) sigBytes
      ins).inputNotes.total (unspent 1) = 0 := small_consumed hs.small
  rw [hbefore, hcross, honotes, List.map_singleton, List.sum_singleton,
    smallOutput_worth oid (by decide), List.map_nil, List.sum_nil] at hsettled
  rw [Database.holdings, haccounts]
  omega

/-- A request that names its input note twice creates five units of asset `1`. -/
theorem ledger_not_conserved :
    (World.start smallDb).ledger 1 = 5 ∧
    (run (step id) (World.start smallDb)
      [.submit (smallRequest [] 2 1 0), .process 0 (smoothly [])]).ledger 1 = 10 ∧
    ¬ (run (step id) (World.start smallDb)
      [.submit (smallRequest [] 2 1 0), .process 0 (smoothly [])]).credited.Nodup := by
  obtain ⟨db, hs⟩ := small_stored id [] 2 1 0
  obtain ⟨p, ⟨db', cross⟩, hp, hfinal, hrun⟩ :=
    small_run id hs (by decide) (c := smoothly []) trivial rfl
  refine ⟨?_, ?_, ?_⟩
  · have hstart : (World.start smallDb).ledger 1 = smallDb.holdings 1 := by
      simp [World.ledger, World.start]
    rw [hstart, small_holdings]
    rfl
  · have hforward : ((World.start db).post p.txReq (smoothly []).post).forwarded ++
        forwardNotes cross (smoothly []).deliveries = [] := by
      rw [post_forwarded]
      cases cross <;> rfl
    rw [hrun, World.ledger, World.commit]
    simp only [hforward, post_received]
    rw [small_spent_twice hs hp hfinal]
    rfl
  · rw [hrun, World.commit, post_credited]
    intro hnodup
    exact (List.nodup_cons.mp hnodup).1 List.mem_cons_self

end Small

end Doxa.Subpool
