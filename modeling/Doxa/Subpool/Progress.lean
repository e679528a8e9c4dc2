import Doxa.Circuit.Soundness
import Doxa.Subpool.Balances

/-!
# When the steps succeed

The converse of the effects: a request whose parts are in order is stored, a stored request
whose notes are there is prepared, and what was prepared can be finalized unless another
account holds the private identifier of the sender.
-/

namespace Doxa.Subpool

open Lib Client Circuit
open Contract (U256)

variable {perm : State → State}

/-! ## Accounts -/

theorem commitment_ok {acc : StandardAccount} (h : acc.ast.Reachable perm)
    (hauth : acc.consumeAuth = .default) : ∃ c, acc.commitment perm = .ok c := by
  obtain ⟨r, hr⟩ := h.root
  have hconsume : acc.consumePart = .ok (0 :: List.ofFn DEFAULT_ACC_COMM_CONSUME_PK_PLACEHOLDER) := by
    rw [StandardAccount.consumePart, hauth]
    rfl
  rw [StandardAccount.commitment, StandardAccount.commitmentInput, hr, ok_bind, hconsume, ok_bind]
  exact ⟨_, rfl⟩

theorem nullifier_ok {acc : StandardAccount} (h : acc.ast.Reachable perm)
    (hauth : acc.consumeAuth = .default) : ∃ n, acc.nullifier perm = .ok n := by
  obtain ⟨c, hc⟩ := commitment_ok h hauth
  rw [StandardAccount.nullifier, hc, ok_bind]
  exact ⟨_, rfl⟩

/-- The empty asset tree takes any asset but the default one. -/
theorem insertOrUpdateAsset_new {ast : AccountStateTree} (h : AccountStateTree.new perm = .ok ast)
    {assetId : F} (hid : assetId ≠ 0) (amount : U256) :
    ∃ ast' prev, ast.insertOrUpdateAsset perm assetId amount = .ok (ast', prev) := by
  have hm := AccountStateTree.new_eq_ok h
  have hfresh : assetId ∉ ast.assets := by
    rw [AccountStateTree.new, bind_eq_ok] at h
    obtain ⟨t, -, hins⟩ := h
    rw [unwrap_eq_ok] at hins
    obtain ⟨t₁, i, -, rfl⟩ := AccountStateTree._insertAsset_eq_ok hins
    rw [AList.mem_insert]
    rintro (heq | hmem)
    · exact hid heq
    · exact AList.notMem_empty assetId hmem
  have hroom : [leafCommitment perm 0 0].length < 2 ^ ACC_AST_DEPTH := by
    rw [List.length_singleton]
    decide
  obtain ⟨t, hins, -⟩ := Trees.insert_represents (Trees.hashOutput_lawful perm) hm.tree hroom
    (leafCommitment perm assetId amount)
  rw [AccountStateTree.insertOrUpdateAsset, if_neg hfresh, AccountStateTree.insertAsset, if_neg hid,
    if_neg hfresh, AccountStateTree._insertAsset, hins]
  exact ⟨_, _, rfl⟩

/-! ## Submission -/

section Submission

variable {db : Database} {req : SpendTxRequest} {row : AccountRow} {acc : StandardAccount}
  {amounts : List U256} {assetId : F} {outs : List DecodedOutput} {sig : List Byte}
  {requests : Table SpendTxRow SpendTxRow.id}
  {outputs : Table OutputNoteRow OutputNoteRow.identifier}

theorem submit_ok (hrow : db.accounts.find req.privAccAddress = some row)
    (hacc : accountFromRow perm row = .ok acc)
    (hin : req.inputNotes.mapM (checkInputNote db req.privAccAddress) = .ok amounts)
    (hasset : sharedAssetId req = .ok assetId)
    (hout : req.outputNotes.mapM (decodeOutputNote req.privAccAddress) = .ok outs)
    (hbalance : ¬ u256Add (balanceOf acc assetId) (amounts.foldl u256Add 0) <
      (outs.map DecodedOutput.amount).foldl u256Add 0)
    (hsig : hexDecode req.spendTxSignature = some sig)
    (hrequest : db.spendTxRequests.insert (requestRow req sig) = some requests)
    (houtputs : outs.foldlM insertOutputNote db.outputNotes = .ok outputs) :
    submitSpendTxHandler perm req db =
      .ok ({ db with outputNotes := outputs, spendTxRequests := requests },
        db.spendTxRequests.serial) := by
  have hinvalid : invalidInput (accountFromRow perm row) = .ok acc := by
    rw [hacc]
    rfl
  unfold submitSpendTxHandler
  rw [hrow, ok_bind, hinvalid, ok_bind, hin, ok_bind, hasset, ok_bind, hout, ok_bind]
  simp only [revertIf, if_neg hbalance, ok_bind, orInvalid_eq_ok.mpr hsig,
    insertRequest_eq_ok.mpr hrequest, houtputs]
  rfl

end Submission

/-! ## Processing -/

section Processing

variable {db : Database} {row : SpendTxRow} {p : PreparedSpend} {inotes : List InputNoteRow}
  {onotes : List OutputNoteRow} {assetId : F} {accRow : AccountRow} {accin : StandardAccount}
  {inotesValue onotesValue balance : U256}

theorem sumValues_ok {ρ : Type} {value : ρ → Except Failure U256} {notes : List ρ} {v : ρ → U256}
    (hv : ∀ n ∈ notes, value n = .ok (v n)) (hsum : (notes.map fun n => (v n).toNat).sum < 2 ^ 256) :
    ∃ s, sumValues value notes = .ok s ∧ s.toNat = (notes.map fun n => (v n).toNat).sum := by
  have hfold : ∀ (notes : List ρ) (a : U256), (∀ n ∈ notes, value n = .ok (v n)) →
      a.toNat + (notes.map fun n => (v n).toNat).sum < 2 ^ 256 →
      ∃ s, notes.foldlM (fun sum note => value note >>= checkedAdd sum) a = .ok s := by
    intro notes
    induction notes with
    | nil => exact fun a _ _ => ⟨a, rfl⟩
    | cons n notes ih =>
        intro a hv hlt
        rw [List.map_cons, List.sum_cons] at hlt
        have hadd : checkedAdd a (v n) = .ok (a + v n) := if_pos (by omega)
        rw [List.foldlM_cons, hv n List.mem_cons_self, ok_bind, hadd, ok_bind]
        refine ih _ (fun n' hn' => hv n' (List.mem_cons_of_mem n hn')) ?_
        rw [checkedAdd_eq_ok hadd]
        omega
  obtain ⟨s, hs⟩ := hfold notes 0 hv (by rw [show (0 : U256).toNat = 0 from rfl]; omega)
  refine ⟨s, hs, sumValues_eq_ok hs fun n hn w hw => ?_⟩
  rw [hv n hn] at hw
  rw [Except.ok.inj hw]

theorem accoutBalance_ok {b i o : U256} (hsum : b.toNat + i.toNat < 2 ^ 256)
    (hle : o.toNat ≤ b.toNat + i.toNat) (a : F) : ∃ s, accoutBalance b i o a = .ok s := by
  have hadd : checkedAdd i b = .ok (i + b) := if_pos (by omega)
  have hnot : ¬ i + b < o := by
    rw [BitVec.lt_def, checkedAdd_eq_ok hadd]
    omega
  rw [accoutBalance, hadd, ok_bind, revertIf_of_not hnot, ok_bind]
  exact ⟨_, rfl⟩

variable (perm) in
theorem inoteNullifier_ok (nk : HashOut) {r : InputNoteRow}
    (h : ∃ note, r.toStandardNote = .ok note) : ∃ n, inoteNullifier perm nk r = .ok n := by
  obtain ⟨note, hnote⟩ := h
  have hpos : note.nullifier perm 0 nk = .ok _ := if_pos (by decide)
  rw [inoteNullifier, hnote, ok_bind, hpos]
  exact ⟨_, rfl⟩

variable (perm) in
theorem onoteCommitment_ok {o : OutputNoteRow} (h : ∃ note, o.toStandardNote = .ok note) :
    ∃ c, onoteCommitment perm o = .ok c := by
  obtain ⟨note, hnote⟩ := h
  rw [onoteCommitment, hnote, ok_bind]
  exact ⟨_, rfl⟩

variable (perm) in
theorem dummyHash_ok {seed : String} (h : ∃ val, hexToHashChecked seed = .ok val) :
    ∃ d, dummyHash perm seed = .ok d := by
  obtain ⟨val, hval⟩ := h
  rw [dummyHash, hval, ok_bind]
  exact ⟨_, rfl⟩

/-- A request whose notes are there and whose balance suffices is prepared. -/
theorem prepareSpend_ok (haccount : db.accounts.find row.privAccAddress = some accRow)
    (hinotes : row.getInotes db = .ok inotes) (honotes : row.getOnotes db = .ok onotes)
    (hasset : spendAsset onotes = .ok assetId) (haccin : accountFromRow perm accRow = .ok accin)
    (hin : sumValues InputNoteRow.value inotes = .ok inotesValue)
    (hout : sumValues OutputNoteRow.value onotes = .ok onotesValue)
    (hbalance : accoutBalance (balanceOf accin assetId) inotesValue onotesValue assetId = .ok balance)
    (hinLen : inotes.length + row.dinotes.length = NOTE_BATCH)
    (houtLen : onotes.length + row.donotes.length = NOTE_BATCH)
    (hinote : ∀ r ∈ inotes, ∃ note, r.toStandardNote = .ok note)
    (hdinote : ∀ d ∈ row.dinotes, ∃ val, hexToHashChecked d = .ok val)
    (honote : ∀ o ∈ onotes, ∃ note, o.toStandardNote = .ok note)
    (hdonote : ∀ d ∈ row.donotes, ∃ val, hexToHashChecked d = .ok val)
    (hast : ∃ ast' prev, accin.ast.insertOrUpdateAsset perm assetId balance = .ok (ast', prev)) :
    ∃ p, prepareSpend perm db row = .ok p := by
  obtain ⟨ast', prev, hast⟩ := hast
  have hread := accountFromRow_eq_ok haccin
  obtain ⟨nulls, hnulls⟩ := mapM_ok fun r hr =>
    inoteNullifier_ok perm (accin.nk perm) (hinote r hr)
  obtain ⟨dnulls, hdnulls⟩ := mapM_ok fun d hd => dummyHash_ok perm (hdinote d hd)
  obtain ⟨comms, hcomms⟩ := mapM_ok fun o ho => onoteCommitment_ok perm (honote o ho)
  obtain ⟨dcomms, hdcomms⟩ := mapM_ok fun d hd => dummyHash_ok perm (hdonote d hd)
  obtain ⟨n, hn⟩ := nullifier_ok hread.reachable hread.consume_auth
  have hreach : ast'.Reachable perm := (insertOrUpdateAsset_eq_ok hast).1 hread.reachable
  obtain ⟨c, hc⟩ : ∃ c, StandardAccount.commitment perm
      { accin.cloneWithIncrementedNonce with ast := ast' } = .ok c :=
    commitment_ok hreach hread.consume_auth
  unfold prepareSpend
  rw [haccount, orError, ok_bind, hinotes, ok_bind, honotes, ok_bind, hasset, ok_bind, haccin, ok_bind,
    hin, ok_bind, hout, ok_bind, hbalance, ok_bind]
  simp only [revertIf, hinLen, houtLen, ne_eq, not_true_eq_false, if_false, ok_bind, hnulls, hdnulls,
    hcomms, hdcomms, hast, hn, hc]
  exact ⟨_, rfl⟩

theorem foldlM_settleOnote_ok {onotes : List OutputNoteRow} {s : Database × List CrossSubpoolNote}
    (h : ∀ o ∈ onotes, ∃ note, o.toStandardNote = .ok note) :
    ∃ final, onotes.foldlM settleOnote s = .ok final := by
  induction onotes generalizing s with
  | nil => exact ⟨s, rfl⟩
  | cons o onotes ih =>
      obtain ⟨s', hs'⟩ : ∃ s', settleOnote s o = .ok s' := by
        obtain ⟨sp, hsp⟩ := targetSubpool_ok (h o List.mem_cons_self)
        unfold settleOnote
        split
        · exact ⟨_, rfl⟩
        · rw [hsp, ok_bind]
          exact ⟨_, rfl⟩
      rw [List.foldlM_cons, hs', ok_bind]
      exact ih fun o' ho' => h o' (List.mem_cons_of_mem o ho')

/-- A prepared transaction can be finalized. -/
theorem finalizeSpend_ok (hd : Derived perm db row p inotes assetId accin inotesValue onotesValue balance)
    (hfree : ¬ db.IdentifierTaken row.privAccAddress
      (hexEncode (privateIdToBytes accin.privateIdentifier))) (sigBytes : List Byte) :
    ∃ final, finalizeSpend perm db row p sigBytes = .ok final := by
  have hread := accountFromRow_eq_ok hd.from_row
  have hauth : p.accout.consumeAuth = .default := by
    rw [hd.accout]
    exact hread.consume_auth
  have hpi : p.accout.privateIdentifier = accin.privateIdentifier := by rw [hd.accout]; rfl
  obtain ⟨ins, hins⟩ : ∃ ins, accountToInsert perm p.accout p.accRow.ethAddress = .ok ins := by
    rw [accountToInsert, hauth]
    exact ⟨_, rfl⟩
  have htaken : ¬ ((row.inoteIdentifiers.foldl Database.consumeInputNote
      db).updateSpendTxRequestToApproved sigBytes row.id).IdentifierTaken row.privAccAddress
        ins.privateIdentifier := by
    rw [(accountToInsert_eq_ok hins).1, hpi]
    unfold Database.IdentifierTaken Database.updateSpendTxRequestToApproved
    simp only [(foldl_consume_frame row.inoteIdentifiers db).1]
    exact hfree
  unfold finalizeSpend Database.updateAccount
  simp only [hins, revertIf, if_neg htaken, ok_bind]
  exact foldlM_settleOnote_ok hd.onote

end Processing

/-! ## A small subpool

One account, with the default of the asset column, and one note of five units for it. Its
requests name that note `k` times and create one note. -/

section Small

def address (b : Byte) : String := hexEncode (b :: List.replicate 39 0)

def noteId (b : Byte) : String := hexEncode (b :: List.replicate 15 0)

def assetOne : List Byte := 1 :: List.replicate 7 0

def dummySeed (b : Byte) : String := hexEncode (b :: List.replicate 31 0)

def smallAccount : AccountRow where
  privateAccAddress := address 0
  ethAddress := "0x"
  privateIdentifier := hexEncode (List.replicate 16 0)
  subpoolId := List.replicate 8 0
  nonce := List.replicate 8 0
  spendAuth := encodeKey generatorKey
  consumeAuth := zero40
  ast := .object []

def smallNote : InputNoteRow where
  id := 0
  identifier := noteId 9
  assetId := assetOne
  amount := u256ToBytes 5
  recipientAddress := address 0
  senderAddress := address 0
  memo := []
  consume := false
  status := .approved

def smallDb : Database where
  accounts := ⟨[smallAccount], 1, List.nodup_singleton _⟩
  inputNotes := ⟨[smallNote], 1, List.nodup_singleton _⟩
  outputNotes := ⟨[], 0, List.nodup_nil⟩
  spendTxRequests := ⟨[], 0, List.nodup_nil⟩

/-- What `k` times the note is worth. -/
def smallValue (k : ℕ) : U256 := BitVec.ofNat 256 (5 * k)

def smallPayload (b : Byte) (v : U256) (recipient : String) : NotePayload where
  identifier := noteId b
  assetId := hexEncode assetOne
  amount := hexEncode (u256ToBytes v)
  recipientAddress := recipient
  senderAddress := address 0
  memo := hexEncode []

/-- A request with a signature, `k` times the note, and one note `b` for the account `r`. -/
def smallRequest (sig : List Byte) (k : ℕ) (b r : Byte) : SpendTxRequest where
  privAccAddress := address 0
  inputNotes := List.replicate k (smallPayload 9 5 (address 0))
  outputNotes := [smallPayload b (smallValue k) (address r)]
  dinotes := List.replicate (NOTE_BATCH - k) (dummySeed 0)
  donotes := List.replicate (NOTE_BATCH - 1) (dummySeed b)
  spendTxSignature := hexEncode sig

def smallOutput (k : ℕ) (b r : Byte) : DecodedOutput where
  identifier := noteId b
  assetIdBytes := assetOne
  amountBytes := u256ToBytes (smallValue k)
  amount := smallValue k
  recipientAddress := address r
  senderAddress := address 0
  memoBytes := []

/-- The tables of the small subpool, whatever requests are stored. -/
structure Small (db : Database) : Prop where
  accounts : db.accounts = smallDb.accounts
  input_notes : db.inputNotes = smallDb.inputNotes

theorem bytesToF_assetOne : bytesToF assetOne = 1 := by decide

theorem fromHex_address (b : Byte) : ∃ addr, AccountAddress.fromHex (address b) = .ok addr := by
  rw [AccountAddress.fromHex, address, if_pos (by rw [hexEncode_utf8ByteSize]; rfl)]
  have hlen : (b :: List.replicate 39 (0 : Byte)).length = 40 := rfl
  simp only [hexDecode_hexEncode]
  rw [AccountAddress.fromBytes, if_pos hlen]
  exact ⟨_, rfl⟩

theorem noteAddress_address (message : String) (b : Byte) :
    ∃ addr, noteAddress message (address b) = .ok addr := by
  obtain ⟨addr, haddr⟩ := fromHex_address b
  rw [noteAddress, haddr]
  exact ⟨addr, rfl⟩

theorem noteId_ne {b b' : Byte} (h : b ≠ b') : noteId b ≠ noteId b' := by
  intro heq
  exact h (List.cons.inj (hexEncode_injective heq)).1

theorem noteIdentifier_noteId (b : Byte) : ∃ i, noteIdentifier (noteId b) = .ok i := by
  rw [noteIdentifier, noteId, hexDecode_hexEncode, orError, ok_bind,
    tryInto_eq_ok (by rw [List.length_cons, List.length_replicate]), ok_bind]
  exact ⟨_, rfl⟩

/-- What a dummy seed stands for. -/
def seedHash (b : Byte) : HashOut := ![(b.toNat : F), 0, 0, 0]

theorem seedWord (b : Byte) (i : Fin 4) :
    ofLeBytes (slice (b :: List.replicate 31 0) (i.val * 8) 8) = if i = 0 then b.toNat else 0 := by
  have hzero : ofLeBytes (List.replicate 8 0) = 0 := by decide
  fin_cases i
  · simp [slice, ofLeBytes, littleEndian]
  all_goals
    simp only [slice, List.drop_succ_cons, List.drop_replicate, List.take_replicate]
    exact hzero

theorem hexToHashChecked_dummySeed (b : Byte) : hexToHashChecked (dummySeed b) = .ok (seedHash b) := by
  have hlen : (b :: List.replicate 31 (0 : Byte)).length = 32 := rfl
  rw [hexToHashChecked, dummySeed, hexDecode_hexEncode, orError, ok_bind, tryInto_eq_ok hlen, ok_bind]
  refine collect_eq_ok fun i => ?_
  have hle : b.toNat ≤ ORDER := b.isLt.le.trans (by decide)
  simp only [seedWord]
  fin_cases i
  · exact if_pos hle
  all_goals rfl

variable (perm) in
theorem small_account : ∃ acc, accountFromRow perm smallAccount = .ok acc ∧
    AccountStateTree.new perm = .ok acc.ast := by
  obtain ⟨ast, hast⟩ := AccountStateTree.new_ok perm
  refine ⟨{ privateIdentifier := bytesToPrivateId (List.replicate 16 0)
            subpoolId := bytesToF (List.replicate 8 0)
            nonce := bytesToF (List.replicate 8 0)
            spendAuth := readSpendAuth (encodeKey generatorKey)
            consumeAuth := .default
            ast := ast }, ?_, hast⟩
  have hnew : ∀ pi sp, StandardAccount.newWith perm pi sp = .ok ⟨pi, sp, 0, .default, .default, ast⟩ := by
    intro pi sp
    rw [StandardAccount.newWith, hast]
    rfl
  have hread : readAssets [] = .ok ∅ := rfl
  have hmap : AccountStateTree.newFromAssetMap perm ∅ = .ok ast := by
    rw [AccountStateTree.newFromAssetMap]
    simp [AccountStateTree.sortedEntries, AccountStateTree.checkContiguous, hast, ok_bind]
  have harray : ∀ n message, tryInto n message (List.replicate n 0) = .ok (List.replicate n 0) :=
    fun n message => tryInto_eq_ok List.length_replicate
  have hspend : ∀ message, tryInto 40 message (encodeKey generatorKey) = .ok (encodeKey generatorKey) :=
    fun message => tryInto_eq_ok (encodeKey_length generatorKey)
  simp only [accountFromRow, smallAccount, hexDecode_hexEncode, orError, ok_bind, harray, hspend, hnew,
    Json.asObject, hread, hmap]
  rfl

theorem mapM_replicate {ε α β : Type} {f : α → Except ε β} {x : α} {y : β} (h : f x = .ok y) (k : ℕ) :
    (List.replicate k x).mapM f = .ok (List.replicate k y) := by
  induction k with
  | zero => rfl
  | succ k ih =>
      rw [List.replicate_succ, List.mapM_cons, h, ok_bind, ih, ok_bind, List.replicate_succ]
      rfl

theorem smallValue_toNat {k : ℕ} (hk : k ≤ NOTE_BATCH) : (smallValue k).toNat = 5 * k := by
  have hk' : k ≤ 7 := hk
  rw [smallValue, BitVec.toNat_ofNat, Nat.mod_eq_of_lt (by omega)]

theorem foldl_u256Add_replicate (k : ℕ) :
    (List.replicate k (5 : U256)).foldl u256Add 0 = smallValue k := by
  induction k with
  | zero => rfl
  | succ k ih =>
      rw [List.replicate_succ', List.foldl_append, ih, List.foldl_cons, List.foldl_nil, u256Add,
        smallValue, smallValue, Nat.mul_succ, BitVec.ofNat_add]
      rfl

section Submit

variable {db : Database} {sig : List Byte} {k : ℕ} {b r : Byte}

theorem small_find (hs : Small db) : db.inputNotes.find (noteId 9) = some smallNote := by
  rw [hs.input_notes]
  exact Table.find_of_mem (t := smallDb.inputNotes) (r := smallNote) List.mem_cons_self

theorem small_find_account (hs : Small db) : db.accounts.find (address 0) = some smallAccount := by
  rw [hs.accounts]
  exact Table.find_of_mem (t := smallDb.accounts) (r := smallAccount) List.mem_cons_self

theorem checkInputNote_small (hs : Small db) :
    checkInputNote db (address 0) (smallPayload 9 5 (address 0)) = .ok 5 := by
  have hsize : (smallPayload 9 5 (address 0)).identifier.utf8ByteSize = 32 := hexEncode_utf8ByteSize _
  have hfind : db.inputNotes.find (smallPayload 9 5 (address 0)).identifier = some smallNote :=
    small_find hs
  have hrecipient : smallNote.recipientAddress = address 0 := rfl
  have hconsume : ¬ smallNote.consume = true := Bool.false_ne_true
  have hstatus : smallNote.status = .approved := rfl
  have hlen : smallNote.amount.length = 32 := u256ToBytes_length 5
  have hvalue : bytesToU256 smallNote.amount = 5 := bytesToU256_u256ToBytes 5
  unfold checkInputNote
  rw [revertIf_of_not (not_not.mpr hsize), ok_bind, orInvalid_eq_ok.mpr hfind, ok_bind,
    revertIf_of_not (not_not.mpr hrecipient), ok_bind, revertIf_of_not hconsume, ok_bind,
    revertIf_of_not (not_or.mpr ⟨not_not.mpr hstatus, hconsume⟩), ok_bind,
    revertIf_of_not (not_not.mpr hlen), ok_bind, hvalue]
  rfl

theorem decodeOutputNote_small :
    decodeOutputNote (address 0) (smallPayload b (smallValue k) (address r)) =
      .ok (smallOutput k b r) := by
  have hasset : hexDecode (smallPayload b (smallValue k) (address r)).assetId = some assetOne :=
    hexDecode_hexEncode _
  have hamount : hexDecode (smallPayload b (smallValue k) (address r)).amount =
      some (u256ToBytes (smallValue k)) := hexDecode_hexEncode _
  have hmemo : hexDecode (smallPayload b (smallValue k) (address r)).memo = some [] :=
    hexDecode_hexEncode _
  have hsender : (smallPayload b (smallValue k) (address r)).senderAddress = address 0 := rfl
  have hlen : assetOne.length = 8 := rfl
  have hshort : ¬ 512 < ([] : List Byte).length := Nat.not_lt_zero _
  unfold decodeOutputNote
  rw [revertIf_of_not (not_not.mpr hsender), ok_bind, orInvalid_eq_ok.mpr hasset, ok_bind,
    revertIf_of_not (not_not.mpr hlen), ok_bind, orInvalid_eq_ok.mpr hamount, ok_bind,
    revertIf_of_not (not_not.mpr (u256ToBytes_length _)), ok_bind, orInvalid_eq_ok.mpr hmemo, ok_bind,
    revertIf_of_not hshort, ok_bind, bytesToU256_u256ToBytes]
  rfl

theorem sharedAssetId_small : sharedAssetId (smallRequest sig k b r) = .ok 1 := by
  have hall : ∀ s ∈ ((smallRequest sig k b r).inputNotes ++ (smallRequest sig k b r).outputNotes).map
      NotePayload.assetId, s = hexEncode assetOne := by
    intro s hs
    obtain ⟨note, hnote, rfl⟩ := List.mem_map.mp hs
    rcases List.mem_append.mp hnote with hnote | hnote
    · rw [List.eq_of_mem_replicate hnote]
      rfl
    · rw [List.mem_singleton.mp hnote]
      rfl
  have hhead : (((smallRequest sig k b r).inputNotes ++ (smallRequest sig k b r).outputNotes).map
      NotePayload.assetId).head? = some (hexEncode assetOne) := by
    cases k <;> rfl
  have hsame : ¬ ∃ s ∈ ((smallRequest sig k b r).inputNotes ++ (smallRequest sig k b r).outputNotes).map
      NotePayload.assetId, s ≠ hexEncode assetOne := by
    rintro ⟨s, hs, hne⟩
    exact hne (hall s hs)
  have hid : assetIdFromU64 (ofLeBytes assetOne) = .ok 1 := by decide
  have hlen : assetOne.length = 8 := rfl
  unfold sharedAssetId
  simp only [hhead, orInvalid, ok_bind, revertIf, if_neg hsame, hexDecode_hexEncode, hlen, ne_eq,
    not_true_eq_false, if_false, hid]
  rfl

/-- The request is stored. -/
theorem small_submit (perm : State → State) (hs : Small db)
    (hnote : db.outputNotes.find (noteId b) = none)
    (hid : db.spendTxRequests.find db.spendTxRequests.serial = none) :
    ∃ requests outputs,
      db.spendTxRequests.insert (requestRow (smallRequest sig k b r) sig) = some requests ∧
      db.outputNotes.insert (outputNoteRow (smallOutput k b r)) = some outputs ∧
      submitSpendTxHandler perm (smallRequest sig k b r) db =
        .ok ({ db with outputNotes := outputs, spendTxRequests := requests },
          db.spendTxRequests.serial) := by
  obtain ⟨acc, hacc, hast⟩ := small_account perm
  have hrow := small_find_account hs
  obtain ⟨requests, hrequests⟩ : ∃ t,
      db.spendTxRequests.insert (requestRow (smallRequest sig k b r) sig) = some t := Table.insert_ok hid
  obtain ⟨outputs, houtputs⟩ : ∃ t,
      db.outputNotes.insert (outputNoteRow (smallOutput k b r)) = some t := Table.insert_ok hnote
  refine ⟨requests, outputs, hrequests, houtputs, ?_⟩
  refine submit_ok hrow hacc (mapM_replicate (checkInputNote_small hs) k) sharedAssetId_small
    (mapM_replicate decodeOutputNote_small 1) ?_ (hexDecode_hexEncode sig) hrequests ?_
  · have hzero : balanceOf acc 1 = 0 := amountIn_new hast 1
    rw [hzero, foldl_u256Add_replicate]
    exact fun hlt => Nat.lt_irrefl _ (BitVec.lt_def.mp hlt)
  · have hins : insertOutputNote db.outputNotes (smallOutput k b r) = .ok outputs := by
      rw [insertOutputNote, houtputs]
    rw [List.replicate_one, List.foldlM_cons, hins]
    rfl

end Submit

section Process

variable {db : Database} {sig : List Byte} {k : ℕ} {b r : Byte} {id oid : ℕ}

theorem smallNote_standard : ∃ note, smallNote.toStandardNote = .ok note :=
  standardNote_eq_ok.mpr ⟨noteIdentifier_noteId 9, rfl,
    ⟨5, noteValue_eq_ok.mpr ⟨u256ToBytes_length 5, bytesToU256_u256ToBytes 5⟩⟩,
    noteAddress_address _ 0, noteAddress_address _ 0⟩

theorem smallOutput_value : (outputNoteRow (smallOutput k b r) oid).value = .ok (smallValue k) :=
  noteValue_eq_ok.mpr ⟨u256ToBytes_length _, bytesToU256_u256ToBytes _⟩

theorem smallOutput_standard :
    ∃ note, (outputNoteRow (smallOutput k b r) oid).toStandardNote = .ok note :=
  standardNote_eq_ok.mpr ⟨noteIdentifier_noteId b, rfl, ⟨_, smallOutput_value⟩,
    noteAddress_address _ r, noteAddress_address _ 0⟩

theorem small_in_value (hk : k ≤ NOTE_BATCH) :
    ∃ s, sumValues InputNoteRow.value (List.replicate k smallNote) = .ok s ∧ s.toNat = 5 * k := by
  have hk' : k ≤ 7 := hk
  have hvalue : ∀ n ∈ List.replicate k smallNote, n.value = .ok 5 := by
    intro n hn
    rw [List.eq_of_mem_replicate hn]
    exact noteValue_eq_ok.mpr ⟨u256ToBytes_length 5, bytesToU256_u256ToBytes 5⟩
  have hsum : ((List.replicate k smallNote).map fun _ => (5 : U256).toNat).sum = 5 * k := by
    rw [List.map_replicate, List.sum_replicate, smul_eq_mul, mul_comm]
    rfl
  obtain ⟨s, hs, hsNat⟩ := sumValues_ok hvalue (by rw [hsum]; omega)
  exact ⟨s, hs, hsNat.trans hsum⟩

theorem small_getInotes (hs : Small db) :
    (requestRow (smallRequest sig k b r) sig id).getInotes db = .ok (List.replicate k smallNote) := by
  have hinote : (requestRow (smallRequest sig k b r) sig id).getInote db (noteId 9) = .ok smallNote :=
    getInote_eq_ok.mpr ⟨small_find hs, rfl, rfl, rfl⟩
  have hids : (requestRow (smallRequest sig k b r) sig id).inoteIdentifiers =
      List.replicate k (noteId 9) := List.map_replicate
  rw [SpendTxRow.getInotes, hids]
  exact mapM_replicate hinote k

theorem small_getOnotes
    (hnote : db.outputNotes.find (noteId b) = some (outputNoteRow (smallOutput k b r) oid)) :
    (requestRow (smallRequest sig k b r) sig id).getOnotes db =
      .ok [outputNoteRow (smallOutput k b r) oid] :=
  getOnotes_eq_ok.mpr (.cons hnote .nil)

/-- The stored request is prepared. -/
theorem small_prepare (perm : State → State) (hs : Small db) (hk : k ≤ NOTE_BATCH)
    (hnote : db.outputNotes.find (noteId b) = some (outputNoteRow (smallOutput k b r) oid)) :
    ∃ p, prepareSpend perm db (requestRow (smallRequest sig k b r) sig id) = .ok p := by
  obtain ⟨acc, hacc, hast⟩ := small_account perm
  have hk' : k ≤ 7 := hk
  obtain ⟨inSum, hin, hinSum⟩ := small_in_value hk
  obtain ⟨balance, hbalance⟩ : ∃ balance, accoutBalance (balanceOf acc 1) inSum (smallValue k) 1 =
      .ok balance := by
    have hzero : balanceOf acc 1 = 0 := amountIn_new hast 1
    rw [hzero]
    refine accoutBalance_ok ?_ ?_ 1 <;>
      rw [show (0 : U256).toNat = 0 from rfl, hinSum]
    · omega
    · rw [smallValue_toNat hk]
      omega
  have hout : sumValues OutputNoteRow.value [outputNoteRow (smallOutput k b r) oid] =
      .ok (smallValue k) := by
    have hadd : checkedAdd 0 (smallValue k) = .ok (0 + smallValue k) := by
      refine if_pos ?_
      rw [smallValue_toNat hk, show (0 : U256).toNat = 0 from rfl]
      omega
    have hzero : (0 : U256) + smallValue k = smallValue k := BitVec.zero_add _
    rw [sumValues, List.foldlM_cons, smallOutput_value, ok_bind, hadd, hzero]
    rfl
  refine prepareSpend_ok (small_find_account hs) (small_getInotes hs) (small_getOnotes hnote)
    (noteAssetId_eq_ok.mpr ⟨rfl, bytesToF_assetOne⟩) hacc hin hout hbalance ?_ ?_ ?_ ?_ ?_ ?_
    (insertOrUpdateAsset_new hast one_ne_zero balance)
  · rw [List.length_replicate]
    exact (congrArg _ List.length_replicate).trans (Nat.add_sub_cancel' hk)
  · rfl
  · intro n hn
    rw [List.eq_of_mem_replicate hn]
    exact smallNote_standard
  · intro d hd
    rw [List.eq_of_mem_replicate hd]
    exact ⟨_, hexToHashChecked_dummySeed _⟩
  · intro o ho
    rw [List.mem_singleton.mp ho]
    exact smallOutput_standard
  · intro d hd
    rw [List.eq_of_mem_replicate hd]
    exact ⟨_, hexToHashChecked_dummySeed _⟩

/-- The stored request is finalized. -/
theorem small_finalize {perm : State → State} {row : SpendTxRow} {p : PreparedSpend} (hs : Small db)
    (haddr : row.privAccAddress = address 0) (hp : prepareSpend perm db row = .ok p)
    (sigBytes : List Byte) : ∃ final, finalizeSpend perm db row p sigBytes = .ok final := by
  obtain ⟨inotes, assetId, accin, inSum, outSum, balance, hd⟩ := prepareSpend_eq_ok hp
  refine finalizeSpend_ok hd ?_ sigBytes
  rw [Database.IdentifierTaken, hs.accounts, haddr]
  rintro ⟨-, row', hrow', hne, -⟩
  exact hne (by rw [List.mem_singleton.mp hrow']; rfl)

end Process

/-- The sequencer takes the transaction and the operator commits. -/
def smoothly (deliveries : List Delivery) : Circumstances where
  sign := fun _ => []
  post := ⟨true, some .success⟩
  commits := true
  deliveries := deliveries

section Run

variable (perm : State → State) {w : World} {sig : List Byte} {k : ℕ} {b r : Byte} {id oid : ℕ}

/-- A stored request of the small subpool goes through. -/
theorem small_process (hs : Small w.db) (hk : k ≤ NOTE_BATCH)
    (hnote : w.db.outputNotes.find (noteId b) = some (outputNoteRow (smallOutput k b r) oid))
    (hrow : w.db.spendTxRequests.find id = some (requestRow (smallRequest sig k b r) sig id))
    {c : Circumstances} (hgo : c.post.GoesOn) (hcommits : c.commits = true) :
    ∃ p final, prepareSpend perm w.db (requestRow (smallRequest sig k b r) sig id) = .ok p ∧
      finalizeSpend perm w.db (requestRow (smallRequest sig k b r) sig id) p (c.sign p.txHash) =
        .ok final ∧
      step perm (.process id c) w = .ok ((w.post p.txReq c.post).commit
        (requestRow (smallRequest sig k b r) sig id) p.txReq final c.deliveries) := by
  obtain ⟨p, hp⟩ := small_prepare perm hs hk hnote
  obtain ⟨final, hfinal⟩ := small_finalize hs rfl hp (c.sign p.txHash)
  exact ⟨p, final, hp, hfinal,
    step_process_ok hrow rfl (processOneSpendTx_ok hp hgo hcommits hfinal)⟩

/-- A request is stored in the small subpool. -/
theorem small_step_submit (sig : List Byte) (k : ℕ) (b r : Byte) (hs : Small w.db)
    (hnote : w.db.outputNotes.find (noteId b) = none)
    (hid : w.db.spendTxRequests.find w.db.spendTxRequests.serial = none) :
    ∃ requests outputs,
      w.db.spendTxRequests.insert (requestRow (smallRequest sig k b r) sig) = some requests ∧
      w.db.outputNotes.insert (outputNoteRow (smallOutput k b r)) = some outputs ∧
      step perm (.submit (smallRequest sig k b r)) w =
        .ok { w with db := { w.db with outputNotes := outputs, spendTxRequests := requests } } := by
  obtain ⟨requests, outputs, hrequests, houtputs, hsubmit⟩ := small_submit perm hs hnote hid
  refine ⟨requests, outputs, hrequests, houtputs, ?_⟩
  simp only [step, hsubmit]

theorem small_start : Small smallDb := ⟨rfl, rfl⟩

/-- The database with the first request stored. -/
structure SmallStored (db : Database) (sig : List Byte) (k : ℕ) (b r : Byte) : Prop where
  small : Small db
  output : ∃ oid, db.outputNotes.find (noteId b) = some (outputNoteRow (smallOutput k b r) oid)
  request : db.spendTxRequests.find 0 = some (requestRow (smallRequest sig k b r) sig 0)
  step : step perm (.submit (smallRequest sig k b r)) (World.start smallDb) = .ok (World.start db)
  free : ∀ b' ≠ b, db.outputNotes.find (noteId b') = none
  serial : db.spendTxRequests.serial = 1
  unused : ∀ i ≠ 0, db.spendTxRequests.find i = none

theorem small_stored (sig : List Byte) (k : ℕ) (b r : Byte) :
    ∃ db, SmallStored perm db sig k b r := by
  obtain ⟨requests, outputs, hrequests, houtputs, hstep⟩ :=
    small_step_submit perm sig k b r (w := World.start smallDb) small_start rfl rfl
  refine ⟨{ smallDb with outputNotes := outputs, spendTxRequests := requests },
    ⟨rfl, rfl⟩, ⟨0, ?_⟩, ?_, hstep, ?_, Table.serial_insert hrequests, ?_⟩
  · exact (Table.find_insert houtputs).trans (if_pos rfl)
  · exact (Table.find_insert hrequests).trans (if_pos rfl)
  · intro b' hb
    exact (Table.find_insert houtputs).trans (if_neg (noteId_ne (Ne.symm hb)))
  · intro i hi
    exact (Table.find_insert hrequests).trans (if_neg (Ne.symm hi))

end Run

end Small

end Doxa.Subpool
