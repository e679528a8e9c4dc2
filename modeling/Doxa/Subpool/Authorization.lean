import Doxa.Subpool.Pending
import Doxa.Subpool.Ledger

/-!
# Who authorized a spend

The signature of a spend request is decoded from hexadecimal and stored, and nothing ever
reads it. So a debit is authorized where the request was signed for the transaction its
tables gave when it was submitted: what the transaction is derived from stays the same
until the request is processed, or the request is never approved.
-/

namespace Doxa

open Lib Client

/-- `Signature::encode`: the point and the scalar, in words with the low byte first. -/
def Signature.encode (sig : Signature) : Option (List Byte) := do
  let w ← Doxa.encode sig.r
  return (coeffs w).flatMap fToBytes ++ (List.ofFn sig.s).flatMap fun limb => leBytes 8 limb.toNat

theorem Signature.encode_length {sig : Signature} {bytes : List Byte} (h : sig.encode = some bytes) :
    bytes.length = 80 := by
  unfold Signature.encode at h
  cases hw : Doxa.encode sig.r with
  | none =>
      rw [hw] at h
      cases h
  | some w =>
      rw [hw, Option.bind_eq_bind, Option.bind_some] at h
      obtain rfl := Option.some.inj h
      rw [List.length_append, length_flatMap_record fun f _ => leBytes_length 8 f.val,
        length_flatMap_record fun limb _ => leBytes_length 8 _, List.length_ofFn]
      rfl

end Doxa

namespace Doxa.Subpool

open Lib Client Circuit

/-! ## Signed requests -/

section Requests

variable (S : BaseSqrt) (perm : State → State)

/-- The bytes are a signature of the hash under the spend key of the account. -/
def Authorizes (acc : StandardAccount) (txHash : HashOut) (sigBytes : List Byte) : Prop :=
  ∃ Q sig, decode S (PubkeyTarget.toQuintic acc.spendAuth.pkOrDefault) = some Q ∧
    sig.encode = some sigBytes ∧ schnorrVerify perm Q (List.ofFn txHash) sig = some true

/-- The request is signed for the transaction that is derived from the tables. -/
def SignedRow (db : Database) (row : SpendTxRow) : Prop :=
  ∀ p acc, prepareSpend perm db row = .ok p → accountFromRow perm p.accRow = .ok acc →
    Authorizes S perm acc p.txHash row.spendTxSignature

/-- A submitted request is signed for the transaction of the tables it is stored in. -/
def Signed (w : World) : Op → Prop
  | .submit req => ∀ w', step perm (.submit req) w = .ok w' →
    ∀ row, w'.db.spendTxRequests.find w.db.spendTxRequests.serial = some row →
      SignedRow S perm w'.db row
  | _ => True

/-- A request that is approved now bears a signature of its owner over the hash that is
derived now. -/
def World.Authorized (w : World) : Prop :=
  ∀ id c w', step perm (.process id c) w = .ok w' →
    ∀ row, w.db.spendTxRequests.find id = some row →
      (∃ row', w'.db.spendTxRequests.find id = some row' ∧ row'.status = .approved) →
        ∃ p acc, prepareSpend perm w.db row = .ok p ∧ accountFromRow perm p.accRow = .ok acc ∧
          Authorizes S perm acc p.txHash row.spendTxSignature

/-- The pending requests name stored notes and are signed. -/
def World.SignedRequests (w : World) : Prop :=
  ∀ row ∈ w.db.spendTxRequests.rows, row.status = .pending →
    KnownNotes w.db row ∧ SignedRow S perm w.db row

end Requests

/-! ## Runs -/

section Runs

variable {S : BaseSqrt} {perm : State → State} {w w' : World}

theorem SignedRow.mono {db db' : Database} {row : SpendTxRow} (h : SignedRow S perm db row)
    (hback : ∀ p, prepareSpend perm db' row = .ok p → prepareSpend perm db row = .ok p) :
    SignedRow S perm db' row := fun p acc hp hacc => h p acc (hback p hp) hacc

theorem World.SignedRequests.authorized (hw : w.SignedRequests S perm) : w.Authorized S perm := by
  rintro id c w' hstep row hrow ⟨row', hrow', happroved⟩
  obtain ⟨row₀, hrow₀, hstatus, hproc⟩ := step_process hstep
  obtain rfl : row₀ = row := Option.some.inj (hrow₀.symm.trans hrow)
  obtain ⟨p, hp, rfl | ⟨final, -, -, -, -⟩⟩ := processOneSpendTx_cases hproc
  · rw [post_db, hrow, Option.some.injEq] at hrow'
    rw [← hrow', hstatus] at happroved
    cases happroved
  · obtain ⟨inotes, assetId, accin, inotesValue, onotesValue, balance, hd⟩ := prepareSpend_eq_ok hp
    exact ⟨p, accin, hp, hd.from_row,
      (hw row₀ (Table.mem_of_find hrow) hstatus).2 p accin hp hd.from_row⟩

theorem submit_signed {req : SpendTxRequest} (hw : w.SignedRequests S perm)
    (hsigned : Signed S perm w (.submit req)) (h : step perm (.submit req) w = .ok w') :
    w'.SignedRequests S perm := by
  have hnew := hsigned w' h
  obtain ⟨db', sig, outs, hs, rfl⟩ := step_submit h
  obtain ⟨-, hkeep, -, -⟩ := foldlM_insertOutputNote hs.output_notes
  have hin : ∀ k r, w.db.inputNotes.find k = some r → db'.inputNotes.find k = some r := by
    intro k r hr
    rw [hs.input_notes, hr]
  intro row hrow hstatus
  rw [(Table.insert_eq_some hs.request).2, List.mem_append, List.mem_singleton] at hrow
  rcases hrow with hrow | rfl
  · obtain ⟨hknown, hrowSigned⟩ := hw row hrow hstatus
    refine ⟨hknown.mono (fun k r hr => by rw [hin k r hr]; rfl)
      (fun k o ho => by rw [hkeep k o ho]; rfl), hrowSigned.mono fun p hp => ?_⟩
    rw [← prepareSpend_grow hknown hs.accounts hin hkeep, hp]
  · refine ⟨⟨fun i hi => ?_, hs.outputs⟩, hnew _ ?_⟩
    · obtain ⟨note, hnote, rfl⟩ := List.mem_map.mp hi
      rw [hs.input_notes]
      exact hs.known note hnote
    · exact (Table.find_insert hs.request).trans (if_pos rfl)

theorem process_signed {id : ℕ} {c : Circumstances} (hw : w.SignedRequests S perm)
    (h : step perm (.process id c) w = .ok w') : w'.SignedRequests S perm := by
  obtain ⟨row₀, hrow₀, -, hproc⟩ := step_process h
  obtain ⟨p₀, hp₀, rfl | ⟨⟨db', cross⟩, -, -, hfinal, rfl⟩⟩ := processOneSpendTx_cases hproc
  · unfold World.SignedRequests
    rw [post_db]
    exact hw
  · intro row hrow hstatus
    rw [World.commit, (finalizeSpend_frame hfinal).1] at hrow
    obtain ⟨r, hr, rfl⟩ := List.mem_map.mp hrow
    split at hstatus
    · cases hstatus
    rename_i hid
    rw [if_neg hid]
    obtain ⟨hknown, hsigned⟩ := hw r hr hstatus
    exact ⟨hknown.commit hfinal,
      hsigned.mono fun p hp => prepareSpend_before_commit hp₀ hfinal hknown hp⟩

theorem receive_signed {note : IncomingNote} (hw : w.SignedRequests S perm)
    (h : step perm (.receive note) w = .ok w') : w'.SignedRequests S perm := by
  obtain ⟨assetIdBytes, amountBytes, memoBytes, -, -, rfl⟩ := step_receive h
  intro row hrow hstatus
  obtain ⟨hknown, hsigned⟩ := hw row hrow hstatus
  refine ⟨hknown.mono (fun k r hr => ?_) (fun k o ho => Option.isSome_iff_exists.mpr ⟨o, ho⟩),
    hsigned.mono fun p hp => ?_⟩
  · rw [Database.insertApprovedInputNote, Table.find_insertOrIgnore hr]
    rfl
  · have hgrow : prepareSpend perm (w.db.insertApprovedInputNote note.identifier assetIdBytes
        amountBytes note.recipientAddress note.senderAddress memoBytes) row =
        prepareSpend perm w.db row :=
      prepareSpend_grow hknown rfl (fun k r hr => Table.find_insertOrIgnore hr) fun k o ho => ho
    exact hgrow.symm.trans hp

theorem step_signed {o : Op} (hw : w.SignedRequests S perm) (hsigned : Signed S perm w o)
    (h : step perm o w = .ok w') : w'.SignedRequests S perm := by
  cases o with
  | submit req => exact submit_signed hw hsigned h
  | process id c => exact process_signed hw h
  | receive note => exact receive_signed hw h
  | closeBatch =>
      obtain rfl := Except.ok.inj h
      exact hw

end Runs

/-- In every state of a run in which requests are submitted with a signature for the
transaction of their tables, a request that is approved bears a signature over the hash of
the transaction that is applied. -/
theorem spends_authorized (S : BaseSqrt) (perm : State → State) {db : Database}
    (hdb : ∀ row ∈ db.spendTxRequests.rows, row.status ≠ .pending) {ops : List Op}
    (hops : Along (step perm) (Signed S perm) (World.start db) ops) :
    (run (step perm) (World.start db) ops).Authorized S perm := by
  refine World.SignedRequests.authorized (run_inv_along (World.SignedRequests S perm) ?_ hops ?_)
  · intro row hrow hstatus
    exact absurd hstatus (hdb row hrow)
  · intro o _ t t' ht hsigned hstep
    exact step_signed ht hsigned hstep

/-! ## The small subpool -/

section Small

/-- The bytes of the neutral point and the scalar zero. -/
def zeroSignature : List Byte := List.replicate 80 0

theorem zeroSignature_encode : (⟨0, fun _ => 0#64⟩ : Signature).encode = some zeroSignature := by
  have hpoint : encode 0 = some 0 := rfl
  unfold Signature.encode
  rw [hpoint]
  rfl

/-- The key of the small account is that of the generator. -/
theorem small_spendAuth {perm : State → State} {acc : StandardAccount}
    (h : accountFromRow perm smallAccount = .ok acc) : acc.spendAuth = ⟨some generatorKey⟩ := by
  have hne : encodeKey generatorKey ≠ zero40 := by decide +kernel
  have hread : smallAccount.spendAuth = encodeKey generatorKey := rfl
  rw [(accountFromRow_eq_ok h).spend_auth, hread, readSpendAuth, if_neg hne, decodeKey_encodeKey]

/-- Where the challenge is zero, the signature of zeros is one under every key. -/
theorem zeroSignature_authorizes (S : BaseSqrt) {acc : StandardAccount}
    (h : acc.spendAuth = ⟨some generatorKey⟩) (txHash : HashOut) :
    Authorizes S zeroPerm acc txHash zeroSignature := by
  obtain ⟨hcurve, hkey⟩ := (honestTargets_satisfied.keyDecoded_iff S).mpr honestTargets_regular.key
  have hencode : encode hcurve.toPoint = some generatorKey.toQuintic :=
    SchnorrTargets.compressionGate_encode honestTargets_satisfied.compress_q honestTargets_regular.key.1
  have hpoint : encode 0 = some 0 := rfl
  have hpk : acc.spendAuth.pkOrDefault = generatorKey := by
    rw [h]
    rfl
  refine ⟨hcurve.toPoint, ⟨0, fun _ => 0#64⟩, by rw [hpk]; exact hkey, zeroSignature_encode, ?_⟩
  refine schnorrVerify_of_eq zeroPerm hpoint hencode ?_
  have hscalar : bitsVal (Scalar.toBitArr fun _ => 0#64) Scalar.BITS = 0 := by decide +kernel
  have hchallenge : schnorrChallenge zeroPerm 0 generatorKey.toQuintic (List.ofFn txHash) = 0 := by
    have hhash : hashNoPad5 zeroPerm (coeffs 0 ++ coeffs generatorKey.toQuintic ++ List.ofFn txHash) =
        0 := rfl
    have hzero : Scalar.fromHash 0 = 0 := by decide +kernel
    rw [schnorrChallenge, hhash, hzero]
  have hresponse : bitsVal (Scalar.toBitArr 0) Scalar.BITS = 0 := hscalar
  rw [hscalar, hchallenge, hresponse, zero_nsmul, zero_nsmul, add_zero]

/-- The stored request of the small subpool is signed by the zeros. -/
theorem small_signed (S : BaseSqrt) {db : Database}
    (hs : SmallStored zeroPerm db zeroSignature 1 1 0) :
    SignedRow S zeroPerm db (requestRow (smallRequest zeroSignature 1 1 0) zeroSignature 0) := by
  intro p acc hp hacc
  obtain ⟨inotes, assetId, accin, inotesValue, onotesValue, balance, hd⟩ := prepareSpend_eq_ok hp
  have hrow : p.accRow = smallAccount :=
    Option.some.inj (hd.account.symm.trans (small_find_account hs.small))
  rw [hrow] at hacc
  exact zeroSignature_authorizes S (small_spendAuth hacc) p.txHash

/-- The signed request is approved when it is processed, and every approval is authorized. -/
theorem spends_authorized_small :
    (run (step zeroPerm) (World.start smallDb) [.submit (smallRequest zeroSignature 1 1 0),
      .process 0 (smoothly [])]).credited = [noteId 9] ∧
    (run (step zeroPerm) (World.start smallDb)
      [.submit (smallRequest zeroSignature 1 1 0)]).Authorized someBaseSqrt zeroPerm := by
  obtain ⟨db, hs⟩ := small_stored zeroPerm zeroSignature 1 1 0
  constructor
  · obtain ⟨oid, hoid⟩ := hs.output
    obtain ⟨p, final, -, -, hstep⟩ := small_process zeroPerm (w := World.start db)
      (c := smoothly []) hs.small (by decide) hoid hs.request trivial rfl
    rw [run_cons, attempt_ok hs.step, run_cons, attempt_ok hstep, run_nil, World.commit,
      post_credited]
    rfl
  · refine spends_authorized someBaseSqrt zeroPerm (fun row hrow => absurd hrow List.not_mem_nil)
      ⟨fun w' hw' row hrow => ?_, trivial⟩
    obtain rfl : World.start db = w' := Except.ok.inj (hs.step.symm.trans hw')
    obtain rfl : requestRow (smallRequest zeroSignature 1 1 0) zeroSignature 0 = row :=
      Option.some.inj (hs.request.symm.trans hrow)
    exact small_signed someBaseSqrt hs

/-- A request without a signature spends the note of the account. -/
theorem spent_without_signature :
    (run (step id) (World.start smallDb)
      [.submit (smallRequest [] 1 1 0), .process 0 (smoothly [])]).credited = [noteId 9] ∧
    ¬ (run (step id) (World.start smallDb)
      [.submit (smallRequest [] 1 1 0)]).Authorized someBaseSqrt id := by
  obtain ⟨db, hs⟩ := small_stored id [] 1 1 0
  obtain ⟨oid, hoid⟩ := hs.output
  obtain ⟨p, ⟨db', cross⟩, -, hfinal, hstep⟩ := small_process id (w := World.start db)
    (c := smoothly []) hs.small (by decide) hoid hs.request trivial rfl
  constructor
  · rw [run_cons, attempt_ok hs.step, run_cons, attempt_ok hstep, run_nil, World.commit,
      post_credited]
    rfl
  · rw [run_cons, attempt_ok hs.step, run_nil]
    intro hauthorized
    have happroved := Table.find_of_mem (finalizeSpend_approved hfinal hs.request)
    obtain ⟨q, acc, -, -, Q, sig, -, hencode, -⟩ := hauthorized 0 (smoothly []) _ hstep _ hs.request
      ⟨_, happroved, rfl⟩
    have hlen := Signature.encode_length hencode
    cases hlen

end Small

end Doxa.Subpool
