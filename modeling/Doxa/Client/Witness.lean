import Doxa.Circuit.BridgeTx
import Doxa.Client.AssetTree
import Doxa.Client.Note

/-!
# What the witness makes the circuits derive

`set_witness` writes the values of an account or a note into its targets. The circuits
hash these targets, the client hashes the values themselves; both absorb the same elements
in the same order, with one exception. The native commitment of an account whose flag is
unset absorbs the placeholder, whatever key is stored, while `set_witness` writes the
stored key: the two agree only if the stored key is the placeholder or missing. With the
flag set and no key, the native commitment panics. `ConsumeAuth.Regular` excludes both.
-/

namespace Doxa.Circuit

open Client
open Contract (U256)

/-! ## Writing the targets -/

/-- `U256Target::set`: the two halves of word `i` go to limbs `2 i` and `2 i + 1`. -/
def U256Target.set (value : U256) : U256Target := fun k =>
  if k.val % 2 = 0 then lo32 (word value (k.val / 2)) else hi32 (word value (k.val / 2))

def AccountAddressTarget.set (addr : AccountAddress) : AccountAddressTarget :=
  ⟨addr.subpoolId, addr.publicId⟩

def ConsumeAuthTarget.set (auth : ConsumeAuth) : ConsumeAuthTarget :=
  ⟨if auth.config then 1 else 0, auth.pkOrDefault⟩

/-- `AccountTarget::set_witness`; computing the root may fail. -/
def AccountTarget.setWitness (perm : State → State) (acc : StandardAccount) :
    Except Failure AccountTarget := do
  let root ← acc.ast.root perm
  return { privateIdentifier := acc.privateIdentifier, nonce := acc.nonce,
           subpoolId := acc.subpoolId, accAstRoot := root, spendAuth := acc.spendAuth.pkOrDefault,
           consumeAuth := ConsumeAuthTarget.set acc.consumeAuth }

def StandardNoteTarget.setWitness (note : StandardNote) : StandardNoteTarget where
  identifier := note.identifier
  amount := U256Target.set note.amt
  assetId := note.assetId
  recipient := AccountAddressTarget.set note.recipient
  sender := AccountAddressTarget.set note.sender

def DepositNoteTarget.set (note : DepositNote) : DepositNoteTarget where
  identifier := note.identifier
  recipientSubpoolId := note.recipient.subpoolId
  recipientPublicId := note.recipient.publicId
  amount := U256Target.set note.amount
  assetId := note.assetId

/-- What `set_notes_witness` writes for an input slot. -/
def TxCircuitTargets.HoldsInote (t : TxCircuitTargets) (i : Fin NOTE_BATCH) : InoteSlot → Prop
  | .active note position =>
    t.inotes i = StandardNoteTarget.setWitness note ∧ t.inotesPos i = (position : F) ∧
      t.inotesIsactive i = 1
  | .dummy seed => t.dinotes i = seed ∧ t.inotesIsactive i = 0

def TxCircuitTargets.HoldsOnote (t : TxCircuitTargets) (i : Fin NOTE_BATCH) : OnoteSlot → Prop
  | .active note => t.onotes i = StandardNoteTarget.setWitness note ∧ t.onotesIsactive i = 1
  | .dummy seed => t.donotes i = seed ∧ t.onotesIsactive i = 0

/-- The targets after `BuiltPrivTx::set_witness`. -/
structure TxCircuitTargets.Holds (perm : State → State) (t : TxCircuitTargets) (tx : BuiltPrivTx) :
    Prop where
  accin : AccountTarget.setWitness perm tx.accin = .ok t.accin
  accout : AccountTarget.setWitness perm tx.accout = .ok t.accout
  inotes : ∀ i, t.HoldsInote i (tx.inotes i)
  onotes : ∀ i, t.HoldsOnote i (tx.onotes i)

/-! ## Amounts and notes -/

theorem ofFn_set (value : U256) : List.ofFn (U256Target.set value) = amountLimbs value := rfl

variable (perm : State → State)

theorem deriveNoteCommitment_setWitness (note : StandardNote) :
    deriveNoteCommitment perm (StandardNoteTarget.setWitness note) = note.commitment perm := by
  rw [deriveNoteCommitment, StandardNote.commitment, StandardNoteTarget.preimage, ← ofFn_set]
  rfl

theorem deriveDepositNoteComm_set (note : DepositNote) :
    deriveDepositNoteComm perm (DepositNoteTarget.set note) = note.commitment perm := by
  rw [deriveDepositNoteComm, DepositNote.commitment, ← ofFn_set]
  rfl

theorem nullifier_setWitness (note : StandardNote) {position : ℕ} (hpos : position < ORDER)
    (nk : HashOut) : note.nullifier perm position nk =
      .ok (deriveNoteNullifier perm
        (deriveNoteCommitment perm (StandardNoteTarget.setWitness note)) (position : F) nk) := by
  rw [StandardNote.nullifier, if_pos hpos, deriveNoteNullifier, noteNullifierPreimage,
    deriveNoteCommitment_setWitness]

end Doxa.Circuit

namespace Doxa.Client

open Lib Circuit Trees
open Contract (U256)

variable (perm : State → State)

/-! ## Accounts -/

/-- The stored consume key is the one the commitment absorbs. -/
structure ConsumeAuth.Regular (auth : ConsumeAuth) : Prop where
  own : auth.config = true → auth.pk ≠ none
  delegated : auth.config = false →
    auth.pk = none ∨ auth.pk = some DEFAULT_ACC_COMM_CONSUME_PK_PLACEHOLDER

/-- Every digest of the account, as the circuits derive it from the witness. -/
def AccountAgrees (acc : StandardAccount) : Prop :=
  ∃ t, AccountTarget.setWitness perm acc = .ok t ∧
    acc.publicId perm = derivePublicIdentifier perm t.privateIdentifier ∧
    acc.nk perm = deriveNullifierKey perm t.privateIdentifier ∧
    acc.commitment perm = .ok (deriveAccountCommitment perm t) ∧
    acc.nullifier perm = .ok (deriveAccountNullifier perm (deriveAccountCommitment perm t)
      (deriveNullifierKey perm t.privateIdentifier))

/-- The client and the circuits hash two different inputs to one digest. -/
def CommitmentCollision (acc : StandardAccount) : Prop :=
  ∃ inp t, acc.commitmentInput perm = .ok inp ∧ AccountTarget.setWitness perm acc = .ok t ∧
    Collision perm inp t.preimage

variable {perm}

theorem spendPart_eq (acc : StandardAccount) : acc.spendPart = List.ofFn acc.spendAuth.pkOrDefault := by
  unfold StandardAccount.spendPart SpendAuth.pkOrDefault
  cases acc.spendAuth.spendPk with
  | none => rfl
  | some pk => rfl

/-- The part of the preimage that belongs to the consume key. -/
def ConsumeAuth.elements (self : ConsumeAuth) : List F :=
  (ConsumeAuthTarget.set self).config :: List.ofFn (ConsumeAuthTarget.set self).pk

/-- The client absorbs the stored key exactly if it is regular. -/
theorem consumePart_eq_iff (acc : StandardAccount) :
    acc.consumePart = .ok acc.consumeAuth.elements ↔ acc.consumeAuth.Regular := by
  unfold StandardAccount.consumePart ConsumeAuth.elements ConsumeAuthTarget.set
    ConsumeAuth.pkOrDefault
  obtain ⟨config, pk⟩ := acc.consumeAuth
  cases config with
  | true =>
      cases pk with
      | none => exact ⟨fun h => by simp at h, fun h => absurd rfl (h.own rfl)⟩
      | some pk => exact ⟨fun _ => ⟨fun _ => by simp, fun h => by simp at h⟩, fun _ => rfl⟩
  | false =>
      constructor
      · intro h
        refine ⟨fun hconfig => by simp at hconfig, fun _ => ?_⟩
        cases pk with
        | none => exact .inl rfl
        | some pk =>
            simp only [Bool.false_eq_true, if_false, Except.ok.injEq, List.cons.injEq,
              List.ofFn_inj, true_and, Option.getD_some] at h
            exact .inr (congrArg some h.symm)
      · intro h
        rcases h.delegated rfl with hpk | hpk
        · simp only at hpk
          rw [hpk]
          rfl
        · simp only at hpk
          rw [hpk]
          rfl

section Root

variable {acc : StandardAccount} {r : HashOut}

/-- The targets of an account whose asset tree has the root `r`. -/
def accountTarget (acc : StandardAccount) (r : HashOut) : AccountTarget where
  privateIdentifier := acc.privateIdentifier
  nonce := acc.nonce
  subpoolId := acc.subpoolId
  accAstRoot := r
  spendAuth := acc.spendAuth.pkOrDefault
  consumeAuth := ConsumeAuthTarget.set acc.consumeAuth

theorem setWitness_eq (hr : acc.ast.root perm = .ok r) :
    AccountTarget.setWitness perm acc = .ok (accountTarget acc r) := by
  rw [AccountTarget.setWitness, hr]
  rfl

/-- The elements before the consume key. -/
def headElements (acc : StandardAccount) (r : HashOut) : List F :=
  List.ofFn acc.privateIdentifier ++ [acc.subpoolId] ++ List.ofFn r ++ [acc.nonce] ++ acc.spendPart

theorem preimage_eq (acc : StandardAccount) (r : HashOut) :
    (accountTarget acc r).preimage = headElements acc r ++ acc.consumeAuth.elements := by
  rw [headElements, spendPart_eq, AccountTarget.preimage, ConsumeAuth.elements,
    List.append_assoc _ [_] (List.ofFn _)]
  rfl

theorem commitmentInput_eq_ok (hr : acc.ast.root perm = .ok r) {inp : List F} :
    acc.commitmentInput perm = .ok inp ↔
      ∃ consume, acc.consumePart = .ok consume ∧ inp = headElements acc r ++ consume := by
  rw [StandardAccount.commitmentInput, hr]
  constructor
  · intro h
    obtain ⟨root, hroot, h⟩ := bind_eq_ok.mp h
    obtain ⟨consume, hconsume, hinp⟩ := bind_eq_ok.mp h
    rw [← Except.ok.inj hroot] at hinp
    exact ⟨consume, hconsume, (pure_eq_ok.mp hinp).symm⟩
  · rintro ⟨consume, hconsume, rfl⟩
    exact bind_eq_ok.mpr ⟨r, rfl, bind_eq_ok.mpr ⟨consume, hconsume, rfl⟩⟩

/-- The client absorbs what the circuits absorb exactly if the key is regular. -/
theorem commitmentInput_eq_preimage_iff (hr : acc.ast.root perm = .ok r) :
    acc.commitmentInput perm = .ok (accountTarget acc r).preimage ↔ acc.consumeAuth.Regular := by
  rw [commitmentInput_eq_ok hr, ← consumePart_eq_iff, preimage_eq]
  constructor
  · rintro ⟨consume, hconsume, heq⟩
    rw [hconsume, List.append_cancel_left heq]
  · intro h
    exact ⟨_, h, rfl⟩

theorem commitment_eq_ok {c : HashOut} :
    acc.commitment perm = .ok c ↔ ∃ inp, acc.commitmentInput perm = .ok inp ∧ hashNoPad perm inp = c := by
  rw [StandardAccount.commitment, bind_eq_ok]
  exact exists_congr fun inp => and_congr_right fun _ => pure_eq_ok

/-- The commitment decides: the other digests follow. -/
theorem accountAgrees_iff_commitment (hr : acc.ast.root perm = .ok r) :
    AccountAgrees perm acc ↔
      acc.commitment perm = .ok (deriveAccountCommitment perm (accountTarget acc r)) := by
  constructor
  · rintro ⟨t, ht, -, -, hcomm, -⟩
    rw [setWitness_eq hr] at ht
    rwa [Except.ok.inj ht]
  · intro hcomm
    refine ⟨_, setWitness_eq hr, rfl, rfl, hcomm, ?_⟩
    rw [StandardAccount.nullifier, hcomm]
    rfl

theorem accountAgrees_iff (hr : acc.ast.root perm = .ok r) :
    AccountAgrees perm acc ↔ acc.consumeAuth.Regular ∨ CommitmentCollision perm acc := by
  rw [accountAgrees_iff_commitment hr, commitment_eq_ok]
  constructor
  · rintro ⟨inp, hinp, hhash⟩
    rcases (hashNoPad_eq_iff perm _ _).mp hhash with rfl | hcollision
    · exact .inl ((commitmentInput_eq_preimage_iff hr).mp hinp)
    · exact .inr ⟨inp, _, hinp, setWitness_eq hr, hcollision⟩
  · rintro (hregular | ⟨inp, t, hinp, ht, hcollision⟩)
    · exact ⟨_, (commitmentInput_eq_preimage_iff hr).mpr hregular, rfl⟩
    · rw [setWitness_eq hr] at ht
      rw [← Except.ok.inj ht] at hcollision
      exact ⟨inp, hinp, hcollision.2⟩

end Root

/-- A regular account has the digests the circuits derive from its targets. -/
theorem regular_digests {acc : StandardAccount} {t : AccountTarget} (h : acc.consumeAuth.Regular)
    (ht : AccountTarget.setWitness perm acc = .ok t) :
    acc.commitment perm = .ok (deriveAccountCommitment perm t) ∧
      acc.nullifier perm = .ok (deriveAccountNullifier perm (deriveAccountCommitment perm t)
        (deriveNullifierKey perm t.privateIdentifier)) ∧
      acc.nk perm = deriveNullifierKey perm t.privateIdentifier := by
  have hroot : ∃ r, acc.ast.root perm = .ok r := by
    rw [AccountTarget.setWitness, bind_eq_ok] at ht
    obtain ⟨r, hr, -⟩ := ht
    exact ⟨r, hr⟩
  obtain ⟨r, hr⟩ := hroot
  obtain ⟨t', ht', -, hnk, hcomm, hnull⟩ := (accountAgrees_iff hr).mpr (.inl h)
  rw [ht] at ht'
  obtain rfl := Except.ok.inj ht'
  exact ⟨hcomm, hnull, hnk⟩

/-! ## Transaction hashes -/

theorem inoteSlot_nullifier {t : TxCircuitTargets} {i : Fin NOTE_BATCH} {slot : InoteSlot}
    (h : t.HoldsInote i slot) (hpos : ∀ note position, slot = .active note position → position < ORDER) :
    slot.nullifier perm (t.nk perm) = .ok (t.effectiveInotesNull perm i) := by
  cases slot with
  | active note position =>
      obtain ⟨hnote, hposition, hactive⟩ := h
      rw [InoteSlot.nullifier, nullifier_setWitness perm note (hpos note position rfl),
        TxCircuitTargets.effectiveInotesNull, hactive, ifElseHash_one, TxCircuitTargets.inotesNull,
        TxCircuitTargets.inotesComm, hnote, hposition]
      rfl
  | dummy seed =>
      obtain ⟨hseed, hactive⟩ := h
      rw [InoteSlot.nullifier, TxCircuitTargets.effectiveInotesNull, hactive, ifElseHash_zero,
        TxCircuitTargets.dinotesNull, hseed]
      rfl

theorem onoteSlot_commitment {t : TxCircuitTargets} {i : Fin NOTE_BATCH} {slot : OnoteSlot}
    (h : t.HoldsOnote i slot) : slot.commitment perm = t.derivedOnotesComm perm i := by
  cases slot with
  | active note =>
      obtain ⟨hnote, hactive⟩ := h
      rw [OnoteSlot.commitment, TxCircuitTargets.derivedOnotesComm, hactive, ifElseHash_one,
        TxCircuitTargets.onotesComm, hnote, deriveNoteCommitment_setWitness]
  | dummy seed =>
      obtain ⟨hseed, hactive⟩ := h
      rw [OnoteSlot.commitment, TxCircuitTargets.derivedOnotesComm, hactive, ifElseHash_zero,
        TxCircuitTargets.donotesComm, hseed]
      rfl

/-- Both accounts have regular keys. -/
structure BuiltPrivTx.Regular (tx : BuiltPrivTx) : Prop where
  accin : tx.accin.consumeAuth.Regular
  accout : tx.accout.consumeAuth.Regular
  positions : ∀ i note position, tx.inotes i = .active note position → position < ORDER

theorem privTxHash_holds {tx : BuiltPrivTx} {t : TxCircuitTargets} (h : tx.Regular)
    (ht : t.Holds perm tx) : tx.txHash perm = .ok (t.txHash perm) := by
  obtain ⟨-, hnull, hnk⟩ := regular_digests h.accin ht.accin
  obtain ⟨hcomm, -, -⟩ := regular_digests h.accout ht.accout
  have hnulls : (collect fun i => (tx.inotes i).nullifier perm (tx.accin.nk perm)) =
      .ok (t.effectiveInotesNull perm) := by
    refine collect_eq_ok fun i => ?_
    rw [hnk]
    exact inoteSlot_nullifier (ht.inotes i) (h.positions i)
  have hcomms : (fun i => (tx.onotes i).commitment perm) = t.derivedOnotesComm perm :=
    funext fun i => onoteSlot_commitment (ht.onotes i)
  rw [BuiltPrivTx.txHash, hnulls, hnull, hcomm, hcomms]
  rfl

/-- The hash a deposit builder computes. -/
def depositTxHash (perm : State → State) (accin accout : StandardAccount) (note : DepositNote)
    (ethAddress : H160) : Except Failure HashOut := do
  let accinNull ← accin.nullifier perm
  let accoutComm ← accout.commitment perm
  return deriveDepositTxHash perm accinNull accoutComm (note.commitment perm) ethAddress

/-- The hash a withdrawal builder computes. -/
def withdrawTxHash (perm : State → State) (accin accout : StandardAccount)
    (assetIds : Fin NOTE_BATCH → F) (amounts : Fin NOTE_BATCH → U256) (wAccAddr : H160) :
    Except Failure HashOut := do
  let accinNull ← accin.nullifier perm
  let accoutComm ← accout.commitment perm
  return deriveWithdrawTxHash perm accinNull accoutComm assetIds amounts wAccAddr

end Doxa.Client

namespace Doxa.Circuit

open Client
open Contract (U256)

/-- The targets after `DepositTxTargets::set`. -/
structure DepositTxTargets.Holds (perm : State → State) (t : DepositTxTargets)
    (accin accout : StandardAccount) (note : DepositNote) (ethAddress : H160) : Prop where
  accin : AccountTarget.setWitness perm accin = .ok t.accin
  accout : AccountTarget.setWitness perm accout = .ok t.accout
  note : t.depositNote = DepositNoteTarget.set note
  eth_address : t.ethAddress = mapH160ToF ethAddress

/-- The targets after the witness of a withdrawal. -/
structure WithdrawTxTargets.Holds (perm : State → State) (t : WithdrawTxTargets)
    (accin accout : StandardAccount) (assetIds : Fin NOTE_BATCH → F)
    (amounts : Fin NOTE_BATCH → U256) (wAccAddr : H160) : Prop where
  accin : AccountTarget.setWitness perm accin = .ok t.accin
  accout : AccountTarget.setWitness perm accout = .ok t.accout
  asset_ids : t.assetIds = assetIds
  amounts : t.withdrawalAmts = fun i => U256Target.set (amounts i)
  w_acc_addr : t.wAccAddr = mapH160ToF wAccAddr

variable {perm : State → State} {accin accout : StandardAccount}

theorem depositTxHash_holds {t : DepositTxTargets} {note : DepositNote} {ethAddress : H160}
    (hin : accin.consumeAuth.Regular) (hout : accout.consumeAuth.Regular)
    (ht : t.Holds perm accin accout note ethAddress) :
    depositTxHash perm accin accout note ethAddress = .ok (t.txHash perm) := by
  obtain ⟨-, hnull, -⟩ := regular_digests hin ht.accin
  obtain ⟨hcomm, -, -⟩ := regular_digests hout ht.accout
  have hnote : t.noteComm perm = note.commitment perm := by
    rw [DepositTxTargets.noteComm, ht.note, deriveDepositNoteComm_set]
  rw [depositTxHash, hnull, hcomm, ← hnote, DepositTxTargets.txHash, ht.eth_address]
  rfl

theorem withdrawTxHash_holds {t : WithdrawTxTargets} {assetIds : Fin NOTE_BATCH → F}
    {amounts : Fin NOTE_BATCH → U256} {wAccAddr : H160}
    (hin : accin.consumeAuth.Regular) (hout : accout.consumeAuth.Regular)
    (ht : t.Holds perm accin accout assetIds amounts wAccAddr) :
    withdrawTxHash perm accin accout assetIds amounts wAccAddr = .ok (t.txHash perm) := by
  obtain ⟨-, hnull, -⟩ := regular_digests hin ht.accin
  obtain ⟨hcomm, -, -⟩ := regular_digests hout ht.accout
  rw [withdrawTxHash, hnull, hcomm, WithdrawTxTargets.txHash, ht.asset_ids, ht.amounts,
    ht.w_acc_addr]
  rfl

end Doxa.Circuit

namespace Doxa.Client

open Lib Circuit Trees
open Contract (U256)

/-! ## Both sides -/

/-- The circuits derive the native digests from every witness: those of an account exactly
if its consume key is regular, up to a collision of the two inputs; those of the notes
always; and the transaction hashes for regular accounts. -/
theorem native_digests_agree (perm : State → State) :
    (∀ acc : StandardAccount, acc.ast.Reachable perm →
      (AccountAgrees perm acc ↔ acc.consumeAuth.Regular ∨ CommitmentCollision perm acc)) ∧
    (∀ note : StandardNote,
      note.commitment perm = deriveNoteCommitment perm (StandardNoteTarget.setWitness note)) ∧
    (∀ (note : StandardNote) (position : ℕ) (nk : HashOut), position < ORDER →
      note.nullifier perm position nk =
        .ok (deriveNoteNullifier perm
          (deriveNoteCommitment perm (StandardNoteTarget.setWitness note)) (position : F) nk)) ∧
    (∀ note : DepositNote,
      note.commitment perm = deriveDepositNoteComm perm (DepositNoteTarget.set note)) ∧
    (∀ (tx : BuiltPrivTx) (t : TxCircuitTargets), tx.Regular → t.Holds perm tx →
      tx.txHash perm = .ok (t.txHash perm)) ∧
    (∀ (accin accout : StandardAccount), accin.consumeAuth.Regular → accout.consumeAuth.Regular →
      (∀ (t : DepositTxTargets) (note : DepositNote) (ethAddress : H160),
        t.Holds perm accin accout note ethAddress →
          depositTxHash perm accin accout note ethAddress = .ok (t.txHash perm)) ∧
      (∀ (t : WithdrawTxTargets) (assetIds : Fin NOTE_BATCH → F) (amounts : Fin NOTE_BATCH → U256)
        (wAccAddr : H160), t.Holds perm accin accout assetIds amounts wAccAddr →
          withdrawTxHash perm accin accout assetIds amounts wAccAddr = .ok (t.txHash perm))) := by
  refine ⟨?_, fun note => (deriveNoteCommitment_setWitness perm note).symm, ?_,
    fun note => (deriveDepositNoteComm_set perm note).symm, fun tx t => privTxHash_holds, ?_⟩
  · intro acc hacc
    obtain ⟨r, hr⟩ := hacc.root
    exact accountAgrees_iff hr
  · intro note position nk hpos
    exact nullifier_setWitness perm note hpos nk
  · intro accin accout hin hout
    exact ⟨fun t note ethAddress => depositTxHash_holds hin hout,
      fun t assetIds amounts wAccAddr => withdrawTxHash_holds hin hout⟩

/-- Under the identity permutation the digest of an account shows the third coordinate of the
consume key. -/
theorem hashNoPad_id_elements (acc : StandardAccount) (r : HashOut) (pk : Fin 5 → F) :
    hashNoPad id (headElements acc r ++ 0 :: List.ofFn pk) 0 = pk 2 := by
  rw [headElements, spendPart_eq]
  rfl

/-- A delegated account that stores a key: the client commits to the placeholder, the
circuits to the key. -/
theorem delegated_key_diverges : ∃ acc : StandardAccount, acc.ast.Reachable id ∧
    acc.consumeAuth.config = false ∧ acc.consumeAuth.pk = some 0 ∧ ¬ AccountAgrees id acc := by
  obtain ⟨ast, hnew⟩ := AccountStateTree.new_ok id
  have hreach : ast.Reachable id := .new hnew
  obtain ⟨r, hr⟩ := hreach.root
  refine ⟨⟨0, 0, 0, .default, ⟨false, some 0⟩, ast⟩, hreach, rfl, rfl, ?_⟩
  rw [accountAgrees_iff_commitment (r := r) hr]
  intro hcomm
  obtain ⟨inp, hinp, hhash⟩ := commitment_eq_ok.mp hcomm
  obtain ⟨consume, hconsume, rfl⟩ := (commitmentInput_eq_ok hr).mp hinp
  obtain rfl : 0 :: List.ofFn DEFAULT_ACC_COMM_CONSUME_PK_PLACEHOLDER = consume :=
    Except.ok.inj hconsume
  rw [deriveAccountCommitment, preimage_eq] at hhash
  have hlane := congrFun hhash 0
  rw [hashNoPad_id_elements] at hlane
  have hkey : DEFAULT_ACC_COMM_CONSUME_PK_PLACEHOLDER 2 = (0 : Fin 5 → F) 2 :=
    hlane.trans (hashNoPad_id_elements _ _ _)
  exact absurd hkey (by decide)

end Doxa.Client
