import Doxa.Subpool.Process

/-!
# What the steps do

One lemma for each statement and each step of the world: what a step that succeeded had
found, and what it changed. The invariants are derived from these.
-/

namespace Doxa.Subpool

open Lib Client Circuit
open Contract (U256)

theorem orError_eq_ok {α : Type} {message : String} {o : Option α} {a : α} :
    orError message o = .ok a ↔ o = some a := by
  cases o with
  | none => simp [orError]
  | some b => simp [orError]

theorem orInvalid_eq_ok {α : Type} {message : String} {o : Option α} {a : α} :
    orInvalid message o = .ok a ↔ o = some a := by
  cases o with
  | none => simp [orInvalid]
  | some b => simp [orInvalid]

theorem tryInto_eq_ok_iff {n : ℕ} {message : String} {b b' : List Byte} :
    tryInto n message b = .ok b' ↔ b.length = n ∧ b = b' := by
  unfold tryInto
  split <;> simp [*]

/-! ## Notes -/

theorem getInote_eq_ok {row : SpendTxRow} {db : Database} {i : String} {r : InputNoteRow} :
    row.getInote db i = .ok r ↔ db.inputNotes.find i = some r ∧ r.status = .approved ∧
      r.consume = false ∧ r.recipientAddress = row.privAccAddress := by
  unfold SpendTxRow.getInote
  rw [bind_eq_ok]
  simp only [orError_eq_ok, revertIf_bind_eq_ok, pure_eq_ok, not_or, not_not,
    Bool.not_eq_true]
  constructor
  · rintro ⟨r', hfind, ⟨hstatus, hconsume⟩, hrecipient, rfl⟩
    exact ⟨hfind, hstatus, hconsume, hrecipient⟩
  · rintro ⟨hfind, hstatus, hconsume, hrecipient⟩
    exact ⟨r, hfind, ⟨hstatus, hconsume⟩, hrecipient, rfl⟩

theorem getInote_congr {row : SpendTxRow} {db db' : Database} {i : String}
    (h : db'.inputNotes.find i = db.inputNotes.find i) : row.getInote db' i = row.getInote db i := by
  rw [SpendTxRow.getInote, h, SpendTxRow.getInote]

theorem getInotes_eq_ok {row : SpendTxRow} {db : Database} {inotes : List InputNoteRow} :
    row.getInotes db = .ok inotes ↔
      List.Forall₂ (fun i r => row.getInote db i = .ok r) row.inoteIdentifiers inotes := mapM_eq_ok

theorem getOnotes_eq_ok {row : SpendTxRow} {db : Database} {onotes : List OutputNoteRow} :
    row.getOnotes db = .ok onotes ↔
      List.Forall₂ (fun i o => db.outputNotes.find i = some o) row.onoteIdentifiers onotes := by
  unfold SpendTxRow.getOnotes
  rw [mapM_eq_ok]
  simp only [orError_eq_ok]

theorem noteValue_eq_ok {what : String} {id : ℕ} {amount : List Byte} {v : U256} :
    noteValue what id amount = .ok v ↔ amount.length = 32 ∧ bytesToU256 amount = v := by
  unfold noteValue
  rw [bind_eq_ok]
  simp only [tryInto_eq_ok_iff, pure_eq_ok]
  constructor
  · rintro ⟨_, ⟨hlen, rfl⟩, hv⟩
    exact ⟨hlen, hv⟩
  · rintro ⟨hlen, hv⟩
    exact ⟨amount, ⟨hlen, rfl⟩, hv⟩

theorem noteAssetId_eq_ok {assetId : List Byte} {a : F} :
    noteAssetId assetId = .ok a ↔ assetId.length = 8 ∧ bytesToF assetId = a := by
  unfold noteAssetId
  rw [bind_eq_ok]
  simp only [tryInto_eq_ok_iff, pure_eq_ok]
  constructor
  · rintro ⟨_, ⟨hlen, rfl⟩, ha⟩
    exact ⟨hlen, ha⟩
  · rintro ⟨hlen, ha⟩
    exact ⟨assetId, ⟨hlen, rfl⟩, ha⟩

/-- A note is read when each of its columns is. -/
theorem standardNote_eq_ok {identifier : String} {assetId : List Byte} {value : Except Failure U256}
    {recipientAddress senderAddress : String} :
    (∃ note, standardNote identifier assetId value recipientAddress senderAddress = .ok note) ↔
      (∃ i, noteIdentifier identifier = .ok i) ∧ assetId.length = 8 ∧ (∃ v, value = .ok v) ∧
        (∃ a, noteAddress "invalid recipient address in input note" recipientAddress = .ok a) ∧
        ∃ a, noteAddress "invalid sender address in input note" senderAddress = .ok a := by
  unfold standardNote
  constructor
  · rintro ⟨note, h⟩
    obtain ⟨i, hi, h₁⟩ := bind_eq_ok.mp h
    obtain ⟨a, ha, h₂⟩ := bind_eq_ok.mp h₁
    obtain ⟨v, hv, h₃⟩ := bind_eq_ok.mp h₂
    obtain ⟨recipient, hrecipient, h₄⟩ := bind_eq_ok.mp h₃
    obtain ⟨sender, hsender, -⟩ := bind_eq_ok.mp h₄
    exact ⟨⟨i, hi⟩, (noteAssetId_eq_ok.mp ha).1, ⟨v, hv⟩, ⟨recipient, hrecipient⟩, sender, hsender⟩
  · rintro ⟨⟨i, hi⟩, hlen, ⟨v, hv⟩, ⟨recipient, hrecipient⟩, sender, hsender⟩
    rw [hi, ok_bind, noteAssetId_eq_ok.mpr ⟨hlen, rfl⟩, ok_bind, hv, ok_bind, hrecipient, ok_bind,
      hsender, ok_bind]
    exact ⟨_, rfl⟩

/-- The subpool of the recipient of a readable note is known. -/
theorem targetSubpool_ok {o : OutputNoteRow} (h : ∃ note, o.toStandardNote = .ok note) :
    ∃ sp, o.targetSubpool = .ok sp := by
  obtain ⟨-, -, -, ⟨recipient, hrecipient⟩, -⟩ := standardNote_eq_ok.mp h
  have hrecipient' : o.recipient = .ok recipient := hrecipient
  rw [OutputNoteRow.targetSubpool, hrecipient', ok_bind]
  exact ⟨_, rfl⟩

/-! ## Sums -/

theorem checkedAdd_eq_ok {a b s : U256} (h : checkedAdd a b = .ok s) : s.toNat = a.toNat + b.toNat := by
  unfold checkedAdd at h
  split at h
  · rename_i hlt
    rw [← Except.ok.inj h, BitVec.toNat_add, Nat.mod_eq_of_lt hlt]
  · cases h

theorem foldlM_checkedAdd {ρ : Type} {value : ρ → Except Failure U256} {notes : List ρ} {a s : U256}
    (h : notes.foldlM (fun sum note => value note >>= checkedAdd sum) a = .ok s) {g : ρ → ℕ}
    (hg : ∀ n ∈ notes, ∀ v, value n = .ok v → g n = v.toNat) :
    s.toNat = a.toNat + (notes.map g).sum := by
  induction notes generalizing a with
  | nil =>
      rw [List.foldlM_nil, pure_eq_ok] at h
      rw [h, List.map_nil, List.sum_nil, Nat.add_zero]
  | cons n notes ih =>
      rw [List.foldlM_cons, bind_eq_ok] at h
      obtain ⟨a', hadd, hrest⟩ := h
      obtain ⟨v, hv, hadd⟩ := bind_eq_ok.mp hadd
      rw [ih hrest fun n' hn' => hg n' (List.mem_cons_of_mem n hn'), checkedAdd_eq_ok hadd,
        List.map_cons, List.sum_cons, hg n List.mem_cons_self v hv]
      omega

/-- The sum of the values of notes. -/
theorem sumValues_eq_ok {ρ : Type} {value : ρ → Except Failure U256} {notes : List ρ} {s : U256}
    (h : sumValues value notes = .ok s) {g : ρ → ℕ}
    (hg : ∀ n ∈ notes, ∀ v, value n = .ok v → g n = v.toNat) : s.toNat = (notes.map g).sum := by
  have hsum := foldlM_checkedAdd h hg
  rw [show (0 : U256).toNat = 0 from rfl] at hsum
  omega

theorem accoutBalance_eq_ok {b i o s : U256} {a : F} (h : accoutBalance b i o a = .ok s) :
    s.toNat + o.toNat = b.toNat + i.toNat := by
  rw [accoutBalance, bind_eq_ok] at h
  obtain ⟨available, hadd, h⟩ := h
  rw [revertIf_bind_eq_ok, pure_eq_ok] at h
  obtain ⟨hle, rfl⟩ := h
  have hsum := checkedAdd_eq_ok hadd
  rw [BitVec.not_lt] at hle
  have hle' : o.toNat ≤ available.toNat := hle
  rw [BitVec.toNat_sub_of_le hle]
  omega

/-! ## Preparation -/

section Preparation

variable {perm : State → State} {db db' : Database} {row : SpendTxRow} {p : PreparedSpend}

variable (perm) in
/-- What a prepared transaction was derived from. -/
structure Derived (db : Database) (row : SpendTxRow) (p : PreparedSpend) (inotes : List InputNoteRow)
    (assetId : F) (accin : StandardAccount) (inotesValue onotesValue balance : U256) : Prop where
  account : db.accounts.find row.privAccAddress = some p.accRow
  get_inotes : row.getInotes db = .ok inotes
  get_onotes : row.getOnotes db = .ok p.onotes
  asset : spendAsset p.onotes = .ok assetId
  from_row : accountFromRow perm p.accRow = .ok accin
  in_value : sumValues InputNoteRow.value inotes = .ok inotesValue
  out_value : sumValues OutputNoteRow.value p.onotes = .ok onotesValue
  out_balance : accoutBalance (balanceOf accin assetId) inotesValue onotesValue assetId = .ok balance
  inote : ∀ r ∈ inotes, ∃ note, r.toStandardNote = .ok note
  onote : ∀ o ∈ p.onotes, ∃ note, o.toStandardNote = .ok note
  ast : ∃ prev, accin.ast.insertOrUpdateAsset perm assetId balance = .ok (p.accout.ast, prev)
  accout : p.accout = { accin.cloneWithIncrementedNonce with ast := p.accout.ast }
  tx_id : p.txReq.txId = spendTxId row.id
  leaf : ∃ n, accin.nullifier perm = .ok n ∧ p.txReq.inputAccountLeaf = hashToHex n
  outputs : ∃ comms dcomms, p.onotes.mapM (onoteCommitment perm) = .ok comms ∧
    row.donotes.mapM (dummyHash perm) = .ok dcomms ∧
    p.txReq.outputNotes = (List.ofFn (noteArray (comms ++ dcomms))).map hashToHex

theorem forall_of_mapM {α β : Type} {f : α → Except Failure β} {xs : List α} {ys : List β}
    (h : xs.mapM f = .ok ys) : ∀ x ∈ xs, ∃ y, f x = .ok y := by
  intro x hx
  obtain ⟨y, -, hy⟩ := exists_of_mem_left (mapM_eq_ok.mp h) hx
  exact ⟨y, hy⟩

theorem prepareSpend_eq_ok (h : prepareSpend perm db row = .ok p) :
    ∃ inotes assetId accin inotesValue onotesValue balance,
      Derived perm db row p inotes assetId accin inotesValue onotesValue balance := by
  unfold prepareSpend at h
  obtain ⟨accRow, haccount, h⟩ := bind_eq_ok.mp h
  obtain ⟨inotes, hinotes, h⟩ := bind_eq_ok.mp h
  obtain ⟨onotes, honotes, h⟩ := bind_eq_ok.mp h
  obtain ⟨assetId, hasset, h⟩ := bind_eq_ok.mp h
  obtain ⟨accin, haccin, h⟩ := bind_eq_ok.mp h
  obtain ⟨inotesValue, hin, h⟩ := bind_eq_ok.mp h
  obtain ⟨onotesValue, hout, h⟩ := bind_eq_ok.mp h
  obtain ⟨balance, hbalance, h⟩ := bind_eq_ok.mp h
  obtain ⟨-, h⟩ := revertIf_bind_eq_ok.mp h
  obtain ⟨-, h⟩ := revertIf_bind_eq_ok.mp h
  obtain ⟨inoteNulls, hnulls, h⟩ := bind_eq_ok.mp h
  obtain ⟨dinoteNulls, -, h⟩ := bind_eq_ok.mp h
  obtain ⟨onoteComms, hcomms, h⟩ := bind_eq_ok.mp h
  obtain ⟨donoteComms, hdcomms, h⟩ := bind_eq_ok.mp h
  obtain ⟨updated, hupdated, h⟩ := bind_eq_ok.mp h
  obtain ⟨accinNull, hnull, h⟩ := bind_eq_ok.mp h
  obtain ⟨accoutComm, -, h⟩ := bind_eq_ok.mp h
  obtain rfl := pure_eq_ok.mp h
  refine ⟨inotes, assetId, accin, inotesValue, onotesValue, balance, orError_eq_ok.mp haccount,
    hinotes, honotes, hasset, haccin, hin, hout, hbalance, ?_, ?_, ⟨updated.2, hupdated⟩, rfl, rfl,
    ⟨accinNull, hnull, rfl⟩, onoteComms, donoteComms, hcomms, hdcomms, rfl⟩
  · intro r hr
    obtain ⟨n, hn⟩ := forall_of_mapM hnulls r hr
    obtain ⟨note, hnote, -⟩ := bind_eq_ok.mp hn
    exact ⟨note, hnote⟩
  · intro o ho
    obtain ⟨n, hn⟩ := forall_of_mapM hcomms o ho
    obtain ⟨note, hnote, -⟩ := bind_eq_ok.mp hn
    exact ⟨note, hnote⟩

/-- The preparation reads the account and the notes of the request, and nothing else. -/
theorem prepareSpend_congr
    (haccount : db'.accounts.find row.privAccAddress = db.accounts.find row.privAccAddress)
    (hin : ∀ i ∈ row.inoteIdentifiers, db'.inputNotes.find i = db.inputNotes.find i)
    (hout : ∀ i ∈ row.onoteIdentifiers, db'.outputNotes.find i = db.outputNotes.find i) :
    prepareSpend perm db' row = prepareSpend perm db row := by
  have hinotes : row.getInotes db' = row.getInotes db :=
    mapM_congr fun i hi => getInote_congr (hin i hi)
  have honotes : row.getOnotes db' = row.getOnotes db := by
    refine mapM_congr fun i hi => ?_
    rw [hout i hi]
  rw [prepareSpend, haccount, hinotes, honotes, prepareSpend]

end Preparation

/-! ## Finalization -/

section Finalization

variable {perm : State → State} {db db' : Database} {row : SpendTxRow} {p : PreparedSpend}
  {sigBytes : List Byte} {cross : List CrossSubpoolNote}

theorem foldl_consume_frame (ids : List String) (db : Database) :
    (ids.foldl Database.consumeInputNote db).accounts = db.accounts ∧
      (ids.foldl Database.consumeInputNote db).outputNotes = db.outputNotes ∧
      (ids.foldl Database.consumeInputNote db).spendTxRequests = db.spendTxRequests := by
  induction ids generalizing db with
  | nil => exact ⟨rfl, rfl, rfl⟩
  | cons i ids ih => exact ih (db.consumeInputNote i)

/-- The loop consumes the named notes. -/
theorem foldl_consume_find (ids : List String) (db : Database) (k : String) :
    (ids.foldl Database.consumeInputNote db).inputNotes.find k =
      (db.inputNotes.find k).map fun r => if k ∈ ids then Database.consumedNote r else r := by
  induction ids generalizing db with
  | nil =>
      simp only [List.foldl_nil, List.not_mem_nil, if_false]
      exact Option.map_id'.symm
  | cons i ids ih =>
      rw [List.foldl_cons, ih, Database.consumeInputNote, Table.find_update, Option.map_map]
      cases h : db.inputNotes.find k with
      | none => rfl
      | some r =>
          have hkey := Table.key_of_find h
          simp only [Option.map_some, Function.comp_apply, hkey, List.mem_cons]
          by_cases hk : k = i
          · simp [hk, Database.consumedNote, hkey.trans hk]
          · simp [hk]

/-- A note is stored here or kept for forwarding. -/
theorem settleOnote_cases {o : OutputNoteRow} {cross' : List CrossSubpoolNote}
    (h : settleOnote (db, cross) o = .ok (db', cross')) :
    (db.IsLocal o.recipientAddress ∧ cross' = cross ∧
        db' = db.insertApprovedInputNote o.identifier o.assetId o.amount o.recipientAddress
          o.senderAddress o.memo) ∨
      ¬ db.IsLocal o.recipientAddress ∧ db' = db ∧ ∃ sp, cross' = cross ++ [crossNote o sp] := by
  unfold settleOnote at h
  split at h
  · rename_i hlocal
    rw [Except.ok.injEq, Prod.mk.injEq] at h
    exact .inl ⟨hlocal, h.2.symm, h.1.symm⟩
  · rename_i hother
    obtain ⟨sp, -, hpair⟩ := bind_eq_ok.mp h
    rw [pure_eq_ok, Prod.mk.injEq] at hpair
    exact .inr ⟨hother, hpair.1.symm, sp, hpair.2.symm⟩

/-- What settling the output notes leaves alone, and the notes it keeps for forwarding. -/
structure Settled (db db' : Database) (onotes : List OutputNoteRow)
    (cross cross' : List CrossSubpoolNote) : Prop where
  accounts : db'.accounts = db.accounts
  output_notes : db'.outputNotes = db.outputNotes
  requests : db'.spendTxRequests = db.spendTxRequests
  kept : ∀ k r, db.inputNotes.find k = some r → db'.inputNotes.find k = some r
  cross_kept : ∃ rest, cross' = cross ++ rest
  sent : ∀ o ∈ onotes, ¬ db.IsLocal o.recipientAddress → ∃ sp, crossNote o sp ∈ cross'

theorem foldlM_settleOnote {onotes : List OutputNoteRow} {cross' : List CrossSubpoolNote}
    (h : onotes.foldlM settleOnote (db, cross) = .ok (db', cross')) :
    Settled db db' onotes cross cross' := by
  induction onotes generalizing db cross with
  | nil =>
      rw [List.foldlM_nil, pure_eq_ok, Prod.mk.injEq] at h
      obtain ⟨rfl, rfl⟩ := h
      exact ⟨rfl, rfl, rfl, fun _ _ hr => hr, ⟨[], (List.append_nil _).symm⟩, nofun⟩
  | cons o onotes ih =>
      rw [List.foldlM_cons, bind_eq_ok] at h
      obtain ⟨⟨db₁, cross₁⟩, ho, hrest⟩ := h
      have hs := ih hrest
      rcases settleOnote_cases ho with ⟨hlocal, rfl, rfl⟩ | ⟨-, rfl, sp, rfl⟩
      · refine ⟨hs.accounts, hs.output_notes, hs.requests, ?_, hs.cross_kept, ?_⟩
        · intro k r hr
          exact hs.kept k r (Table.find_insertOrIgnore hr)
        · intro o' ho' hother
          rcases List.mem_cons.mp ho' with rfl | ho'
          · exact absurd hlocal hother
          · exact hs.sent o' ho' hother
      · obtain ⟨rest, hcross'⟩ := hs.cross_kept
        refine ⟨hs.accounts, hs.output_notes, hs.requests, hs.kept,
          ⟨crossNote o sp :: rest, by rw [hcross', List.append_assoc, List.singleton_append]⟩, ?_⟩
        intro o' ho' hother
        rcases List.mem_cons.mp ho' with rfl | ho'
        · refine ⟨sp, ?_⟩
          rw [hcross']
          simp
        · exact hs.sent o' ho' hother

/-- The database before the output notes are settled. -/
def beforeSettling (db : Database) (row : SpendTxRow) (sigBytes : List Byte) (ins : AccountInsert) :
    Database :=
  let approved := (row.inoteIdentifiers.foldl Database.consumeInputNote
    db).updateSpendTxRequestToApproved sigBytes row.id
  { approved with
    accounts := approved.accounts.update row.privAccAddress (Database.setColumns ins)
      (Database.setColumns_address ins) }

theorem finalizeSpend_eq_ok (h : finalizeSpend perm db row p sigBytes = .ok (db', cross)) :
    ∃ ins, accountToInsert perm p.accout p.accRow.ethAddress = .ok ins ∧
      p.onotes.foldlM settleOnote (beforeSettling db row sigBytes ins, []) = .ok (db', cross) := by
  unfold finalizeSpend Database.updateAccount at h
  obtain ⟨updated, hupdated, hsettle⟩ := bind_eq_ok.mp h
  obtain ⟨ins, hins, hguard⟩ := bind_eq_ok.mp hupdated
  obtain ⟨-, hret⟩ := revertIf_bind_eq_ok.mp hguard
  rw [← pure_eq_ok.mp hret] at hsettle
  exact ⟨ins, hins, hsettle⟩

theorem beforeSettling_accounts (db : Database) (row : SpendTxRow) (sigBytes : List Byte)
    (ins : AccountInsert) : (beforeSettling db row sigBytes ins).accounts =
      db.accounts.update row.privAccAddress (Database.setColumns ins)
        (Database.setColumns_address ins) := by
  unfold beforeSettling Database.updateSpendTxRequestToApproved
  simp only [(foldl_consume_frame row.inoteIdentifiers db).1]

theorem beforeSettling_requests (db : Database) (row : SpendTxRow) (sigBytes : List Byte)
    (ins : AccountInsert) : (beforeSettling db row sigBytes ins).spendTxRequests =
      db.spendTxRequests.update row.id (Database.approvedRequest sigBytes)
        (Database.approvedRequest_id sigBytes) := by
  unfold beforeSettling Database.updateSpendTxRequestToApproved
  simp only [(foldl_consume_frame row.inoteIdentifiers db).2.2]

theorem beforeSettling_outputNotes (db : Database) (row : SpendTxRow) (sigBytes : List Byte)
    (ins : AccountInsert) : (beforeSettling db row sigBytes ins).outputNotes = db.outputNotes :=
  (foldl_consume_frame row.inoteIdentifiers db).2.1

/-- An account is local before the transaction if and only if it is within it. -/
theorem beforeSettling_isLocal {ins : AccountInsert} {address : String} :
    (beforeSettling db row sigBytes ins).IsLocal address ↔ db.IsLocal address := by
  unfold Database.IsLocal
  rw [beforeSettling_accounts, Table.find_update, Option.isSome_map]

/-- A finalized request consumes its input notes and keeps the others. -/
theorem finalizeSpend_find
    (h : finalizeSpend perm db row p sigBytes = .ok (db', cross)) {k : String} {r : InputNoteRow}
    (hr : db.inputNotes.find k = some r) :
    db'.inputNotes.find k =
      some (if k ∈ row.inoteIdentifiers then Database.consumedNote r else r) := by
  obtain ⟨ins, -, hsettle⟩ := finalizeSpend_eq_ok h
  refine (foldlM_settleOnote hsettle).kept k _ ?_
  exact (foldl_consume_find row.inoteIdentifiers db k).trans (by rw [hr, Option.map_some])

/-- What a finalized request leaves of the requests, the output notes and the accounts. -/
theorem finalizeSpend_frame
    (h : finalizeSpend perm db row p sigBytes = .ok (db', cross)) :
    db'.spendTxRequests = db.spendTxRequests.update row.id (Database.approvedRequest sigBytes)
        (Database.approvedRequest_id sigBytes) ∧
      db'.outputNotes = db.outputNotes ∧
      (∀ address, db'.IsLocal address ↔ db.IsLocal address) ∧
      ∀ o ∈ p.onotes, ¬ db.IsLocal o.recipientAddress → ∃ sp, crossNote o sp ∈ cross := by
  obtain ⟨ins, -, hsettle⟩ := finalizeSpend_eq_ok h
  have hs := foldlM_settleOnote hsettle
  refine ⟨hs.requests.trans (beforeSettling_requests ..),
    hs.output_notes.trans (beforeSettling_outputNotes ..), fun address => ?_, ?_⟩
  · rw [Database.IsLocal, hs.accounts]
    exact beforeSettling_isLocal
  · intro o ho hother
    exact hs.sent o ho fun hlocal => hother (beforeSettling_isLocal.mp hlocal)

/-- A finalized request is approved. -/
theorem finalizeSpend_approved (h : finalizeSpend perm db row p sigBytes = .ok (db', cross))
    (hrow : db.spendTxRequests.find row.id = some row) :
    Database.approvedRequest sigBytes row ∈ db'.spendTxRequests.rows := by
  rw [(finalizeSpend_frame h).1]
  exact Table.mem_of_find (Table.find_update_self hrow)

/-- The row of the sender is the only account a finalized request changes. -/
theorem finalizeSpend_accounts (h : finalizeSpend perm db row p sigBytes = .ok (db', cross)) :
    ∃ ins, accountToInsert perm p.accout p.accRow.ethAddress = .ok ins ∧
      db'.accounts = db.accounts.update row.privAccAddress (Database.setColumns ins)
        (Database.setColumns_address ins) := by
  obtain ⟨ins, hins, hsettle⟩ := finalizeSpend_eq_ok h
  exact ⟨ins, hins, (foldlM_settleOnote hsettle).accounts.trans (beforeSettling_accounts ..)⟩

end Finalization

/-! ## Submission -/

section Submission

variable {perm : State → State} {db db' : Database} {req : SpendTxRequest} {id : ℕ}

theorem insertRequest_eq_ok {t t' : Table SpendTxRow SpendTxRow.id} {row : ℕ → SpendTxRow} :
    insertRequest t row = .ok t' ↔ t.insert row = some t' := by
  unfold insertRequest
  split <;> simp [*]

theorem insertOutputNote_eq_ok {t t' : Table OutputNoteRow OutputNoteRow.identifier}
    {out : DecodedOutput} (h : insertOutputNote t out = .ok t') :
    t.find out.identifier = none ∧ (∀ k r, t.find k = some r → t'.find k = some r) ∧
      ∃ id, t'.find out.identifier = some (outputNoteRow out id) := by
  unfold insertOutputNote at h
  split at h
  · rename_i t₁ hins
    obtain rfl := Except.ok.inj h
    have hfresh := (Table.insert_eq_some hins).1
    refine ⟨hfresh, ?_, ?_⟩
    · intro k r hr
      rw [Table.find_insert hins, if_neg]
      · exact hr
      · rintro rfl
        exact absurd (hfresh.symm.trans hr) (by simp)
    · exact ⟨t.serial, (Table.find_insert hins).trans (if_pos rfl)⟩
  · cases h

/-- The output notes of a stored request: their identifiers were free and differ. -/
theorem foldlM_insertOutputNote {outs : List DecodedOutput}
    {t t' : Table OutputNoteRow OutputNoteRow.identifier}
    (h : outs.foldlM insertOutputNote t = .ok t') :
    (outs.map DecodedOutput.identifier).Nodup ∧ (∀ k r, t.find k = some r → t'.find k = some r) ∧
      (∀ o ∈ outs, t.find o.identifier = none) ∧
      ∀ o ∈ outs, ∃ id, t'.find o.identifier = some (outputNoteRow o id) := by
  induction outs generalizing t with
  | nil =>
      rw [List.foldlM_nil, pure_eq_ok] at h
      rw [← h]
      exact ⟨List.nodup_nil, fun _ _ hr => hr, nofun, nofun⟩
  | cons o outs ih =>
      rw [List.foldlM_cons, bind_eq_ok] at h
      obtain ⟨t₁, ho, hrest⟩ := h
      obtain ⟨hfree, hkeep, id, hid⟩ := insertOutputNote_eq_ok ho
      obtain ⟨hnodup, hkeep', hfree', hfound⟩ := ih hrest
      refine ⟨?_, fun k r hk => hkeep' k r (hkeep k r hk), ?_, ?_⟩
      · rw [List.map_cons, List.nodup_cons]
        refine ⟨fun hmem => ?_, hnodup⟩
        obtain ⟨o', ho', heq⟩ := List.mem_map.mp hmem
        have hnone := hfree' o' ho'
        rw [heq, hid] at hnone
        cases hnone
      · intro o' ho'
        rcases List.mem_cons.mp ho' with rfl | ho'
        · exact hfree
        · cases hfind : t.find o'.identifier with
          | none => rfl
          | some r' =>
              have hsome := hkeep _ _ hfind
              rw [hfree' o' ho'] at hsome
              cases hsome
      · intro o' ho'
        rcases List.mem_cons.mp ho' with rfl | ho'
        · exact ⟨id, hkeep' _ _ hid⟩
        · exact hfound o' ho'

theorem decodeOutputNote_eq_ok {addr : String} {note : NotePayload} {out : DecodedOutput}
    (h : decodeOutputNote addr note = .ok out) :
    out.identifier = note.identifier ∧ hexDecode note.assetId = some out.assetIdBytes := by
  unfold decodeOutputNote at h
  obtain ⟨-, h₁⟩ := revertIf_bind_eq_ok.mp h
  obtain ⟨assetIdBytes, hasset, h₂⟩ := bind_eq_ok.mp h₁
  obtain ⟨-, h₃⟩ := revertIf_bind_eq_ok.mp h₂
  obtain ⟨amountBytes, -, h₄⟩ := bind_eq_ok.mp h₃
  obtain ⟨-, h₅⟩ := revertIf_bind_eq_ok.mp h₄
  obtain ⟨memoBytes, -, h₆⟩ := bind_eq_ok.mp h₅
  obtain ⟨-, h₇⟩ := revertIf_bind_eq_ok.mp h₆
  rw [← pure_eq_ok.mp h₇]
  exact ⟨rfl, orInvalid_eq_ok.mp hasset⟩

/-- What a successful submission stored. -/
structure Stored (db db' : Database) (req : SpendTxRequest) (spendTxSigBytes : List Byte)
    (outs : List DecodedOutput) : Prop where
  accounts : db'.accounts = db.accounts
  input_notes : db'.inputNotes = db.inputNotes
  signature : hexDecode req.spendTxSignature = some spendTxSigBytes
  request : db.spendTxRequests.insert (requestRow req spendTxSigBytes) = some db'.spendTxRequests
  decoded : req.outputNotes.mapM (decodeOutputNote req.privAccAddress) = .ok outs
  output_notes : outs.foldlM insertOutputNote db.outputNotes = .ok db'.outputNotes
  asset : ∃ assetId, sharedAssetId req = .ok assetId
  known : ∀ note ∈ req.inputNotes, (db.inputNotes.find note.identifier).isSome

theorem checkInputNote_eq_ok {privAccAddress : String} {note : NotePayload} {v : U256}
    (h : checkInputNote db privAccAddress note = .ok v) :
    (db.inputNotes.find note.identifier).isSome := by
  unfold checkInputNote at h
  obtain ⟨-, h₁⟩ := revertIf_bind_eq_ok.mp h
  obtain ⟨r, hr, -⟩ := bind_eq_ok.mp h₁
  rw [orInvalid_eq_ok.mp hr]
  rfl

theorem submit_eq_ok (h : submitSpendTxHandler perm req db = .ok (db', id)) :
    ∃ spendTxSigBytes outs, Stored db db' req spendTxSigBytes outs := by
  unfold submitSpendTxHandler at h
  obtain ⟨accountRow, -, h⟩ := bind_eq_ok.mp h
  obtain ⟨account, -, h⟩ := bind_eq_ok.mp h
  obtain ⟨inoteAmounts, hin, h⟩ := bind_eq_ok.mp h
  obtain ⟨assetId, hasset, h⟩ := bind_eq_ok.mp h
  obtain ⟨outs, houts, h⟩ := bind_eq_ok.mp h
  obtain ⟨-, h⟩ := revertIf_bind_eq_ok.mp h
  obtain ⟨sig, hsig, h⟩ := bind_eq_ok.mp h
  obtain ⟨requests, hrequests, h⟩ := bind_eq_ok.mp h
  obtain ⟨outputs, houtputs, h⟩ := bind_eq_ok.mp h
  rw [pure_eq_ok, Prod.mk.injEq] at h
  rw [← h.1]
  refine ⟨sig, outs, rfl, rfl, orInvalid_eq_ok.mp hsig, insertRequest_eq_ok.mp hrequests, houts,
    houtputs, ⟨assetId, hasset⟩, fun note hnote => ?_⟩
  obtain ⟨v, -, hv⟩ := exists_of_mem_left (mapM_eq_ok.mp hin) hnote
  exact checkInputNote_eq_ok hv

/-- The output notes of a stored request are there. -/
theorem Stored.outputs {sig : List Byte} {outs : List DecodedOutput} (hs : Stored db db' req sig outs) :
    ∀ j ∈ req.outputNotes.map NotePayload.identifier, (db'.outputNotes.find j).isSome := by
  obtain ⟨-, -, -, hfound⟩ := foldlM_insertOutputNote hs.output_notes
  intro j hj
  obtain ⟨note, hnote, rfl⟩ := List.mem_map.mp hj
  obtain ⟨out, hout, hdec⟩ := exists_of_mem_left (mapM_eq_ok.mp hs.decoded) hnote
  obtain ⟨id, hid⟩ := hfound out hout
  rw [← (decodeOutputNote_eq_ok hdec).1, hid]
  rfl

end Submission

/-! ## Steps -/

section Steps

variable {perm : State → State} {w w' : World} {row : SpendTxRow} {c : Circumstances} {id : ℕ}

theorem mem_pending {db : Database} :
    (db.pendingSpendTxs.find? fun row => row.id = id) = some row ↔
      db.spendTxRequests.find id = some row ∧ row.status = .pending := by
  have hsublist : ((db.pendingSpendTxs).map SpendTxRow.id).Nodup :=
    (List.filter_sublist.map _).nodup db.spendTxRequests.unique
  have hfind : (db.pendingSpendTxs.find? fun row => row.id = id) =
      (⟨db.pendingSpendTxs, 0, hsublist⟩ : Table SpendTxRow SpendTxRow.id).find id := rfl
  rw [hfind, Table.find_eq_some, Table.find_eq_some]
  simp only [Database.pendingSpendTxs, List.mem_filter, decide_eq_true_eq]
  tauto

/-- A run of `process_one_spend_tx` ends after the post or after the commit. -/
theorem processOneSpendTx_cases (h : processOneSpendTx perm row c w = .ok w') :
    ∃ p, prepareSpend perm w.db row = .ok p ∧
      (w' = w.post p.txReq c.post ∨
        ∃ final, c.post.GoesOn ∧ c.commits = true ∧
          finalizeSpend perm w.db row p (c.sign p.txHash) = .ok final ∧
          w' = (w.post p.txReq c.post).commit row p.txReq final c.deliveries) := by
  unfold processOneSpendTx at h
  obtain ⟨p, hp, h⟩ := bind_eq_ok.mp h
  refine ⟨p, hp, ?_⟩
  simp only at h
  split at h
  · rename_i hgo
    split at h
    · rename_i final hfinal
      exact .inr ⟨final, hgo.1, hgo.2, hfinal, (pure_eq_ok.mp h).symm⟩
    · exact .inl (pure_eq_ok.mp h).symm
  · exact .inl (pure_eq_ok.mp h).symm

theorem mapError_eq_ok {ε ε' α : Type} {f : ε → ε'} {x : Except ε α} {a : α} :
    x.mapError f = .ok a ↔ x = .ok a := by
  cases x <;> simp [Except.mapError]

theorem step_process (h : step perm (.process id c) w = .ok w') :
    ∃ row, w.db.spendTxRequests.find id = some row ∧ row.status = .pending ∧
      processOneSpendTx perm row c w = .ok w' := by
  simp only [step] at h
  split at h
  · rename_i row hrow
    obtain ⟨hfind, hstatus⟩ := mem_pending.mp hrow
    exact ⟨row, hfind, hstatus, mapError_eq_ok.mp h⟩
  · cases h

theorem step_submit {req : SpendTxRequest} (h : step perm (.submit req) w = .ok w') :
    ∃ db' spendTxSigBytes outs, Stored w.db db' req spendTxSigBytes outs ∧
      w' = { w with db := db' } := by
  simp only [step] at h
  split at h
  · rename_i db' id hsubmit
    obtain ⟨sig, outs, hstored⟩ := submit_eq_ok hsubmit
    exact ⟨db', sig, outs, hstored, (Except.ok.inj h).symm⟩
  · cases h

theorem step_receive {note : IncomingNote} (h : step perm (.receive note) w = .ok w') :
    ∃ assetIdBytes amountBytes memoBytes, hexDecode note.assetId = some assetIdBytes ∧
      hexDecode note.amount = some amountBytes ∧
      w' = { w with
        db := w.db.insertApprovedInputNote note.identifier assetIdBytes amountBytes
          note.recipientAddress note.senderAddress memoBytes
        received := if note ∈ w.received then w.received else w.received ++ [note] } := by
  have h' := mapError_eq_ok.mp h
  unfold receiveNote at h'
  obtain ⟨assetIdBytes, hasset, h'⟩ := bind_eq_ok.mp h'
  obtain ⟨amountBytes, hamount, h'⟩ := bind_eq_ok.mp h'
  obtain ⟨memoBytes, -, h'⟩ := bind_eq_ok.mp h'
  exact ⟨assetIdBytes, amountBytes, memoBytes, orError_eq_ok.mp hasset, orError_eq_ok.mp hamount,
    (pure_eq_ok.mp h').symm⟩

theorem processOneSpendTx_ok {p : PreparedSpend} {final : Database × List CrossSubpoolNote}
    (hp : prepareSpend perm w.db row = .ok p) (hgo : c.post.GoesOn) (hcommits : c.commits = true)
    (hfinal : finalizeSpend perm w.db row p (c.sign p.txHash) = .ok final) :
    processOneSpendTx perm row c w =
      .ok ((w.post p.txReq c.post).commit row p.txReq final c.deliveries) := by
  rw [processOneSpendTx, hp, ok_bind, if_pos ⟨hgo, hcommits⟩, hfinal]
  rfl

theorem step_process_ok (hrow : w.db.spendTxRequests.find id = some row)
    (hstatus : row.status = .pending) (h : processOneSpendTx perm row c w = .ok w') :
    step perm (.process id c) w = .ok w' := by
  simp only [step, mem_pending.mpr ⟨hrow, hstatus⟩, h]
  rfl

@[simp] theorem post_db (w : World) (txReq : TransactionRequest) (re : Reaction) :
    (w.post txReq re).db = w.db := by
  unfold World.post
  split <;> rfl

end Steps

end Doxa.Subpool
