import Doxa.Client.SpendBuild
import Doxa.Client.SpendTargets
import Doxa.Trees.Runs
import Mathlib.Data.BitVec

/-!
# Which built spends can be proven

A sequence of calls that ends in a successful `build` gives a witness of the note, balance and
asset-tree constraints with the signed hash exactly if a slot stays free on both sides, the seeds
of both kinds of dummies were drawn after the last note they depend on, and the account has a
regular consume key (`built_spend_provable`). The builder accepts the other sequences too: a full
batch of seven notes is built and signed, and then refused by `set_notes_witness`.
-/

namespace Doxa.Client.Spend

open Lib Circuit Trees
open Contract (U256)

variable (perm : State → State)

/-- The note, balance and asset-tree constraints of `priv_tx_circuit`, with its boolean targets. -/
structure NoteConstraints (t : TxCircuitTargets) : Prop where
  allocated : t.Allocated
  ast : AssertAstUpdate perm t.accinAstMerkle t.assetId t.accinAmt t.accoutAmt t.accin.accAstRoot
    t.accout.accAstRoot t.assetExistsInAccin t.assetExistsInAccout
  reject : ∀ i, AssertRejectNotePair (t.inotes i) (t.onotes i) (t.inotesIsactive i)
    (t.isNotePairRjct i)
  asset_id : ∀ i, (t.inotes i).assetId = t.assetId ∧ (t.onotes i).assetId = t.assetId
  inotes : t.AssertInotesValid perm
  balance : t.AssertBalanceInvariant

/-- What is attached to a built transaction. -/
structure Attached where
  accinProof : MerkleProof HashOut
  inotesProofs : List (MerkleProof HashOut)
  rejectedProofs : List (MerkleProof HashOut)
  subpoolProof : SubpoolFullProof
  spendSig : Option Signature
  consumeSig : Option Signature
  approvalSig : Option Signature

def BuiltSpendTx.attach (self : BuiltSpendTx) (a : Attached) : BuiltSpendTx :=
  ((((self.withAccountPath a.accinProof).withInputNotesPath a.inotesProofs).withRejectedNotesPath
    a.rejectedProofs).withSubpoolProof a.subpoolProof).withSignatures a.spendSig a.consumeSig
      a.approvalSig

/-- The proofs of the account and of the notes at their positions are those of the tree `t`, and
the required signatures are there. -/
structure ProvedIn (t : MerkleTree HashOut) (tx : BuiltSpendTx) (a : Attached) : Prop where
  account : ∃ pos c, tx.accin.commitment perm = .ok c ∧ t.leaves[pos]? = some c ∧
    t.merkleProof (hashOutput perm) pos = .ok a.accinProof
  rejected : List.Forall₂ (ProvedNote perm t) tx.rejectedInotes a.rejectedProofs
  inotes : List.Forall₂ (ProvedNote perm t) tx.inotes a.inotesProofs
  subpool : a.subpoolProof.mainPoolProof.siblings.length = MAIN_POOL_CONFIG_DEPTH
  signed : (tx.attach a).Signed

/-- The witness is written, satisfies the constraints and has the signed hash. -/
def Provable (sigs : TxSignatureTargets) (tx : BuiltSpendTx) : Prop :=
  ∃ ptx t, tx.intoPrivTx = .ok ptx ∧ ptx.setWitness perm sigs = .ok t ∧ NoteConstraints perm t ∧
    t.txHash perm = tx.txHash

/-- There is a free slot on both sides, and no note was added after the seeds that depend on it. -/
structure Fits (cs : List SpendCall) : Prop where
  room : cs.countP SpendCall.isRejected +
    max (cs.countP SpendCall.isInput) (cs.countP SpendCall.isOutput) < NOTE_BATCH
  dinotes : LastFill SpendCall.fillsDinotes (fun c => c.isInput || c.isRejected) cs
  donotes : LastFill SpendCall.fillsDonotes (fun c => c.isOutput || c.isRejected) cs

/-! ## Collisions -/

/-- The commitments of the client and of the circuit give one nullifier. -/
def NullifierCollision (acc : StandardAccount) : Prop :=
  ∃ c t, acc.commitment perm = .ok c ∧ AccountTarget.setWitness perm acc = .ok t ∧
    Collision perm (List.ofFn c ++ List.ofFn (acc.nk perm))
      (List.ofFn (deriveAccountCommitment perm t) ++ List.ofFn (acc.nk perm))

/-- The elements of the notes in the transaction hash. -/
def noteElements (slots : Client.BuiltPrivTx) : Except Failure (List F) := do
  let inotesNull ← collect fun i => (slots.inotes i).nullifier perm (slots.accin.nk perm)
  return (List.ofFn inotesNull).flatMap List.ofFn ++
    (List.ofFn fun i => (slots.onotes i).commitment perm).flatMap List.ofFn

/-- The digests of the client and of the circuit give one transaction hash. -/
def TxHashCollision (slots : Client.BuiltPrivTx) : Prop :=
  ∃ n c t t' notes, slots.accin.nullifier perm = .ok n ∧ slots.accout.commitment perm = .ok c ∧
    AccountTarget.setWitness perm slots.accin = .ok t ∧
    AccountTarget.setWitness perm slots.accout = .ok t' ∧ noteElements perm slots = .ok notes ∧
    Collision perm (List.ofFn n ++ List.ofFn c ++ notes)
      (List.ofFn (deriveAccountNullifier perm (deriveAccountCommitment perm t)
        (deriveNullifierKey perm t.privateIdentifier)) ++
        List.ofFn (deriveAccountCommitment perm t') ++ notes)

/-- An irregular account has the hash of the circuit only by a collision. -/
def DigestCollision (slots : Client.BuiltPrivTx) : Prop :=
  (CommitmentCollision perm slots.accin ∨ NullifierCollision perm slots.accin) ∧
    CommitmentCollision perm slots.accout ∨ TxHashCollision perm slots

variable {perm}

/-- The commitments agree exactly for a regular key, up to a collision. -/
theorem commitment_agrees_iff {acc : StandardAccount} {t : AccountTarget} {c : HashOut}
    (ht : AccountTarget.setWitness perm acc = .ok t) (hc : acc.commitment perm = .ok c) :
    c = deriveAccountCommitment perm t ↔ acc.consumeAuth.Regular ∨ CommitmentCollision perm acc := by
  obtain ⟨r, hr, htarget⟩ := bind_eq_ok.mp ht
  rw [← accountAgrees_iff hr, accountAgrees_iff_commitment hr, hc, Except.ok.injEq]
  rw [setWitness_eq hr] at ht
  rw [Except.ok.inj ht]

theorem nullifier_agrees_iff {acc : StandardAccount} {t : AccountTarget} {n : HashOut}
    (ht : AccountTarget.setWitness perm acc = .ok t) (hn : acc.nullifier perm = .ok n) :
    n = deriveAccountNullifier perm (deriveAccountCommitment perm t)
        (deriveNullifierKey perm t.privateIdentifier) ↔
      (acc.consumeAuth.Regular ∨ CommitmentCollision perm acc) ∨ NullifierCollision perm acc := by
  obtain ⟨c, hc, hhash⟩ := bind_eq_ok.mp hn
  have hnk : acc.nk perm = deriveNullifierKey perm t.privateIdentifier := by
    obtain ⟨r, hr, htarget⟩ := bind_eq_ok.mp ht
    rw [← pure_eq_ok.mp htarget]
    rfl
  rw [← commitment_agrees_iff ht hc, ← pure_eq_ok.mp hhash, ← hnk, deriveAccountNullifier,
    hashNoPad_eq_iff]
  constructor
  · rintro (hinput | hcollision)
    · exact .inl (List.ofFn_inj.mp (List.append_cancel_right hinput))
    · exact .inr ⟨c, t, hc, ht, hcollision⟩
  · rintro (hcommitment | ⟨c', t', hc', ht', hcollision⟩)
    · exact .inl (by rw [hcommitment])
    · rw [hc] at hc'
      rw [ht] at ht'
      rw [Except.ok.inj hc', Except.ok.inj ht']
      exact .inr hcollision

/-! ## The constraints -/

/-- The masked amounts on one side of the balance. -/
theorem sum_masked {amounts : List U256} {targets : Fin NOTE_BATCH → U256Target}
    (hamounts : ∀ i, targets i = U256Target.set (amounts.getD i.val 0))
    (hroom : amounts.length ≤ NOTE_BATCH) : ∑ i, (targets i).value = total amounts := by
  rw [← sum_getD hroom]
  exact Finset.sum_congr rfl fun i _ => by rw [hamounts, U256Target.value_set]

theorem masked_lt {amounts : List U256} {targets : Fin NOTE_BATCH → U256Target}
    (hamounts : ∀ i, targets i = U256Target.set (amounts.getD i.val 0)) (i : Fin NOTE_BATCH)
    (k : Fin 8) : (targets i k).val < 2 ^ 32 := by
  rw [hamounts]
  exact U256Target.set_lt _ k

theorem accAstRoot_eq {acc : StandardAccount} {t : AccountTarget} {r : HashOut}
    (ht : AccountTarget.setWitness perm acc = .ok t) (hr : acc.ast.root perm = .ok r) :
    t.accAstRoot = r := by
  rw [setWitness_eq hr] at ht
  rw [← Except.ok.inj ht]
  rfl

theorem setWitness_allocated {acc : StandardAccount} {t : AccountTarget}
    (ht : AccountTarget.setWitness perm acc = .ok t) : t.Allocated := by
  obtain ⟨r, -, htarget⟩ := bind_eq_ok.mp ht
  rw [← pure_eq_ok.mp htarget]
  exact isBool_boolTarget _

section Constraints

variable {self : BuiltPrivTx} {sigs : TxSignatureTargets} {accin accout : AccountTarget}
  {mainPoolProof : MerkleRootTarget MAIN_POOL_CONFIG_DEPTH}
  {accinActMerkle : MerkleRootTarget STATE_TREE_DEPTH} {ast : AstTargets} {notes : NotesTargets}
  {tx : BuiltSpendTx} {newBal : U256} {inotes : Fin NOTE_BATCH → InoteSlot}
  {onotes : Fin NOTE_BATCH → OnoteSlot} {root : HashOut}

/-- Both chains have the sum of the balance. -/
theorem targets_balance (hast : AstWitness perm self newBal ast)
    (hnotes : NotesWitness perm root accin self.assetId tx inotes onotes notes)
    (hin : (inAmounts tx).length ≤ NOTE_BATCH) (hout : (outAmounts tx).length ≤ NOTE_BATCH)
    (hbalance : newBal.toNat + total (outAmounts tx) =
      (amountOrNext self.accin.ast self.assetId).2.toNat + total (inAmounts tx)) :
    (self.targets sigs accin accout mainPoolProof accinActMerkle ast notes).AssertBalanceInvariant := by
  have hinput : ∀ k, (ast.accinAmt k).val < 2 ^ 32 := by
    rw [hast.accin_amt]
    exact U256Target.set_lt _
  have houtput : ∀ k, (ast.accoutAmt k).val < 2 ^ 32 := by
    rw [hast.accout_amt]
    exact U256Target.set_lt _
  have hinotes := masked_lt fun i => (hnotes.inotes i).amount
  have honotes := masked_lt fun i => (hnotes.onotes i).amount
  refine {
    lhs := (U256AdditionChain.generate_satisfied hinput hinotes (le_refl 7)).1
    rhs := (U256AdditionChain.generate_satisfied houtput honotes (le_refl 7)).1
    equal := U256AdditionChain.generate_result_eq hinput hinotes houtput honotes (le_refl 7)
      (le_refl 7) ?_ }
  rw [sum_masked (fun i => (hnotes.inotes i).amount) hin,
    sum_masked (fun i => (hnotes.onotes i).amount) hout, hast.accin_amt, hast.accout_amt,
    U256Target.value_set, U256Target.value_set]
  exact hbalance.symm

/-- The written targets meet the constraints. -/
theorem targets_constraints (hin : AccountTarget.setWitness perm self.accin = .ok accin)
    (hout : AccountTarget.setWitness perm self.accout = .ok accout)
    (hast : AstWitness perm self newBal ast)
    (hnotes : NotesWitness perm self.stateRoot accin self.assetId tx inotes onotes notes)
    (hbalance : (self.targets sigs accin accout mainPoolProof accinActMerkle ast
      notes).AssertBalanceInvariant) :
    NoteConstraints perm (self.targets sigs accin accout mainPoolProof accinActMerkle ast notes) := by
  obtain ⟨r, r', hr, hr', hupdate⟩ := hast.update
  refine {
    allocated := ?_
    ast := ?_
    reject := hnotes.reject
    asset_id := fun i => ⟨(hnotes.inotes i).asset_id, (hnotes.onotes i).asset_id⟩
    inotes := ?_
    balance := hbalance }
  · exact {
      not_fake_tx := isBool_boolTarget _
      is_fresh_acc := isBool_boolTarget _
      is_update_auth := isBool_boolTarget _
      is_priv_tx := isBool_boolTarget _
      asset_exists_in_accin := hast.exists_accin
      asset_exists_in_accout := hast.exists_accout
      accin := setWitness_allocated hin
      accout := setWitness_allocated hout
      inotes_isactive := fun i => (hnotes.inotes i).active
      onotes_isactive := fun i => (hnotes.onotes i).active
      is_note_pair_rjct := hnotes.flags }
  · rw [← accAstRoot_eq hin hr, ← accAstRoot_eq hout hr'] at hupdate
    exact hupdate
  · exact {
      membership := fun i => (hnotes.inotes i).membership
      recipient := fun i => congrArg AccountAddressTarget.publicIdentifier (hnotes.inotes i).recipient
      recipient_subpool := fun i => congrArg AccountAddressTarget.subpoolId (hnotes.inotes i).recipient }

/-- The slots the builder hashed are those the targets hold. -/
theorem targets_holds {slots : Client.BuiltPrivTx}
    (hin : AccountTarget.setWitness perm self.accin = .ok accin)
    (hout : AccountTarget.setWitness perm self.accout = .ok accout)
    (hnotes : NotesWitness perm root accin self.assetId tx slots.inotes slots.onotes notes)
    (haccin : slots.accin = self.accin) (haccout : slots.accout = self.accout) :
    (self.targets sigs accin accout mainPoolProof accinActMerkle ast notes).Holds perm slots ∧
      ∀ i note position, slots.inotes i = .active note position → position < ORDER := by
  refine ⟨⟨haccin ▸ hin, haccout ▸ hout, fun i => ?_, fun i => ?_⟩, fun i note position hslot => ?_⟩
  · have hslot := (hnotes.inotes i).slot
    generalize slots.inotes i = slot at hslot
    cases slot with
    | active note position => exact ⟨hslot.1, hslot.2.1, hslot.2.2.1⟩
    | dummy seed => exact hslot
  · have hslot := (hnotes.onotes i).slot
    generalize slots.onotes i = slot at hslot
    cases slot with
    | active note => exact hslot
    | dummy seed => exact hslot
  · have hw := (hnotes.inotes i).slot
    rw [hslot] at hw
    exact hw.2.2.2

end Constraints

/-! ## The transaction hash -/

section Hash

variable {slots : Client.BuiltPrivTx} {t : TxCircuitTargets}

/-- The elements of the notes are those of the circuit. -/
theorem noteElements_holds (ht : t.Holds perm slots)
    (hpos : ∀ i note position, slots.inotes i = .active note position → position < ORDER) :
    (collect fun i => (slots.inotes i).nullifier perm (slots.accin.nk perm)) =
        .ok (t.effectiveInotesNull perm) ∧
      (fun i => (slots.onotes i).commitment perm) = t.derivedOnotesComm perm := by
  have hnk : slots.accin.nk perm = t.nk perm := by
    obtain ⟨r, -, htarget⟩ := bind_eq_ok.mp ht.accin
    rw [TxCircuitTargets.nk, ← pure_eq_ok.mp htarget]
    rfl
  refine ⟨collect_eq_ok fun i => ?_, funext fun i => onoteSlot_commitment (ht.onotes i)⟩
  rw [hnk]
  exact inoteSlot_nullifier (ht.inotes i) (hpos i)

/-- Two hashes over the same notes. -/
theorem derivePrivTxHash_eq_iff {n n' c c' : HashOut} {nulls comms : Fin NOTE_BATCH → HashOut} :
    derivePrivTxHash perm n c nulls comms = derivePrivTxHash perm n' c' nulls comms ↔
      (n = n' ∧ c = c') ∨ Collision perm
        (List.ofFn n ++ List.ofFn c ++
          ((List.ofFn nulls).flatMap List.ofFn ++ (List.ofFn comms).flatMap List.ofFn))
        (List.ofFn n' ++ List.ofFn c' ++
          ((List.ofFn nulls).flatMap List.ofFn ++ (List.ofFn comms).flatMap List.ofFn)) := by
  rw [derivePrivTxHash, derivePrivTxHash, List.append_assoc (_ ++ _), List.append_assoc (_ ++ _),
    hashNoPad_eq_iff, List.append_left_inj]
  refine or_congr_left ⟨fun happend => ?_, ?_⟩
  · obtain ⟨hfirst, hsecond⟩ := List.append_inj happend (by rw [List.length_ofFn, List.length_ofFn])
    exact ⟨List.ofFn_inj.mp hfirst, List.ofFn_inj.mp hsecond⟩
  · rintro ⟨rfl, rfl⟩
    rfl

theorem txHashCollision_iff {n c : HashOut} {tin tout : AccountTarget} {notes : List F}
    (hn : slots.accin.nullifier perm = .ok n) (hc : slots.accout.commitment perm = .ok c)
    (hin : AccountTarget.setWitness perm slots.accin = .ok tin)
    (hout : AccountTarget.setWitness perm slots.accout = .ok tout)
    (hnotes : noteElements perm slots = .ok notes) :
    TxHashCollision perm slots ↔ Collision perm (List.ofFn n ++ List.ofFn c ++ notes)
      (List.ofFn (deriveAccountNullifier perm (deriveAccountCommitment perm tin)
        (deriveNullifierKey perm tin.privateIdentifier)) ++
        List.ofFn (deriveAccountCommitment perm tout) ++ notes) := by
  constructor
  · rintro ⟨n', c', tin', tout', notes', hn', hc', hin', hout', hnotes', hcollision⟩
    rw [hn, Except.ok.injEq] at hn'
    rw [hc, Except.ok.injEq] at hc'
    rw [hin, Except.ok.injEq] at hin'
    rw [hout, Except.ok.injEq] at hout'
    rw [hnotes, Except.ok.injEq] at hnotes'
    rw [hn', hc', hin', hout', hnotes']
    exact hcollision
  · intro hcollision
    exact ⟨n, c, tin, tout, notes, hn, hc, hin, hout, hnotes, hcollision⟩

/-- The hash of the builder is that of the circuit exactly for a regular key, up to a collision. -/
theorem txHash_agrees_iff {h : HashOut} (ht : t.Holds perm slots)
    (hpos : ∀ i note position, slots.inotes i = .active note position → position < ORDER)
    (hkey : slots.accout.consumeAuth = slots.accin.consumeAuth) (hhash : slots.txHash perm = .ok h) :
    t.txHash perm = h ↔ slots.accin.consumeAuth.Regular ∨ DigestCollision perm slots := by
  obtain ⟨hnulls, hcomms⟩ := noteElements_holds ht hpos
  rw [Client.BuiltPrivTx.txHash, hnulls, hcomms] at hhash
  obtain ⟨nulls, hnulls', hhash⟩ := bind_eq_ok.mp hhash
  obtain ⟨n, hn, hhash⟩ := bind_eq_ok.mp hhash
  obtain ⟨c, hc, hhash⟩ := bind_eq_ok.mp hhash
  obtain rfl := Except.ok.inj hnulls'
  have hnotes : noteElements perm slots = .ok ((List.ofFn (t.effectiveInotesNull perm)).flatMap
      List.ofFn ++ (List.ofFn (t.derivedOnotesComm perm)).flatMap List.ofFn) := by
    rw [noteElements, hnulls, hcomms]
    rfl
  have hnull := nullifier_agrees_iff ht.accin hn
  have hcomm := commitment_agrees_iff ht.accout hc
  rw [hkey] at hcomm
  have hcollision := txHashCollision_iff hn hc ht.accin ht.accout hnotes
  have hcircuit : t.txHash perm = derivePrivTxHash perm (deriveAccountNullifier perm
      (deriveAccountCommitment perm t.accin) (deriveNullifierKey perm t.accin.privateIdentifier))
      (deriveAccountCommitment perm t.accout) (t.effectiveInotesNull perm)
      (t.derivedOnotesComm perm) := rfl
  rw [← pure_eq_ok.mp hhash, hcircuit, eq_comm, derivePrivTxHash_eq_iff, hnull, hcomm, ← hcollision,
    DigestCollision, or_assoc, ← or_and_left, or_assoc]

end Hash

/-! ## Built transactions -/

section Builds

variable {accin : StandardAccount} {assetId : F} {cs : List SpendCall} {b : SpendTxBuilder}
  {tx : BuiltSpendTx} {t : MerkleTree HashOut} {a : Attached}

/-- Attaching the proofs leaves what was built. -/
theorem Built.attach (h : Built perm b tx) (a : Attached) : Built perm b (tx.attach a) where
  active := h.active
  account := h.account
  rejected_inotes := h.rejected_inotes
  inotes := h.inotes
  onotes := h.onotes
  dinotes := h.dinotes
  donotes := h.donotes
  balance := h.balance
  hash := h.hash

/-- The checks of the witness are conditions on the calls. -/
theorem Grown.checked_iff (hb : Grown perm accin assetId cs b) (htx : Built perm b tx) :
    Checked tx ↔ Fits cs := by
  have hroom := hb.room
  obtain ⟨-, hdinotes⟩ := hb.dinotes _ htx.dinotes
  obtain ⟨-, hdonotes⟩ := hb.donotes _ htx.donotes
  constructor
  · rintro ⟨hfree, hin, hout⟩
    rw [htx.rejected_inotes, htx.inotes, htx.onotes] at hfree
    rw [htx.inotes, htx.rejected_inotes] at hin
    rw [htx.onotes, htx.rejected_inotes] at hout
    refine ⟨?_, hdinotes.mp (by omega), hdonotes.mp (by omega)⟩
    rw [← hb.rejected, ← hb.inputs, ← hb.outputs]
    exact hfree
  · rintro ⟨hfree, hin, hout⟩
    rw [← hb.rejected, ← hb.inputs, ← hb.outputs] at hfree
    have hinSeeds := hdinotes.mpr hin
    have houtSeeds := hdonotes.mpr hout
    refine ⟨?_, ?_, ?_⟩
    · rw [htx.rejected_inotes, htx.inotes, htx.onotes]
      exact hfree
    · rw [htx.inotes, htx.rejected_inotes]
      omega
    · rw [htx.onotes, htx.rejected_inotes]
      omega

theorem Grown.goodNotes (hb : Grown perm accin assetId cs b) (htx : Built perm b tx)
    (hproved : ProvedIn perm t tx a) :
    GoodNotes perm t (accin.address perm) assetId a.rejectedProofs a.inotesProofs tx := by
  obtain ⟨hdinotes, -⟩ := hb.dinotes _ htx.dinotes
  obtain ⟨hdonotes, -⟩ := hb.donotes _ htx.donotes
  refine {
    rejected := hproved.rejected
    inotes := hproved.inotes
    own := ?_
    onotes := ?_
    dinotes := ?_
    donotes := ?_ }
  · rw [htx.rejected_inotes, htx.inotes]
    exact hb.inotes
  · rw [htx.onotes]
    exact hb.onotes
  · rw [htx.inotes, htx.rejected_inotes]
    exact hdinotes
  · rw [htx.onotes, htx.rejected_inotes]
    exact hdonotes

/-- The witness takes the asset from the first note. -/
theorem Grown.assetId_eq (hb : Grown perm accin assetId cs b) (htx : Built perm b tx)
    (accinProof : MerkleProof HashOut) (inotesProofs rejectedProofs : List (MerkleProof HashOut))
    (subpoolProof : SubpoolFullProof) :
    (tx.privTx accinProof inotesProofs rejectedProofs subpoolProof).assetId = assetId := by
  have hactive := htx.active
  have hinotes := hb.inotes
  have honotes := hb.onotes
  show firstAsset (tx.rejectedInotes.map Prod.fst) (tx.inotes.map Prod.fst) tx.onotes = assetId
  rw [htx.rejected_inotes, htx.inotes, htx.onotes]
  cases hrejected : b.rejectedNotes with
  | cons note rest =>
    exact (hinotes note (by rw [hrejected]; exact List.mem_append_left _ List.mem_cons_self)).1
  | nil =>
    cases hin : b.inputNotes with
    | cons note rest =>
      exact (hinotes note (by rw [hin]; exact List.mem_append_right _ List.mem_cons_self)).1
    | nil =>
      cases hout : b.outputNotes with
      | cons note rest => exact honotes note (by rw [hout]; exact List.mem_cons_self)
      | nil => exact absurd ⟨hin, hout, hrejected⟩ hactive

theorem amounts_length (hchecked : Checked tx) :
    (inAmounts tx).length ≤ NOTE_BATCH ∧ (outAmounts tx).length ≤ NOTE_BATCH := by
  have hroom := hchecked.room
  rw [inAmounts, outAmounts, List.length_append, List.length_append, List.length_map,
    List.length_map, List.length_map]
  omega

theorem total_append (xs ys : List U256) : total (xs ++ ys) = total xs + total ys := by
  rw [total, List.map_append, List.sum_append]
  rfl

/-- The rejected notes are on both sides of the balance. -/
theorem Built.balance_total (htx : Built perm b tx) :
    ∃ newBal : U256, b.accout perm newBal = .ok tx.accout ∧
      newBal.toNat + total (outAmounts tx) =
        (amountOrNext tx.accin.ast b.assetId).2.toNat + total (inAmounts tx) := by
  obtain ⟨newBal, haccout, hbalance⟩ := htx.balance
  refine ⟨newBal, haccout, ?_⟩
  rw [outAmounts, inAmounts, total_append, total_append, htx.onotes, htx.inotes, htx.account]
  omega

theorem intoPrivTx_attach (tx : BuiltSpendTx) (a : Attached) : (tx.attach a).intoPrivTx =
    .ok ((tx.attach a).privTx a.accinProof a.inotesProofs a.rejectedProofs a.subpoolProof) := rfl

/-- The output account has the updated asset tree and the keys of the input account. -/
theorem accout_eq_ok {newBal : U256} {acc : StandardAccount} (h : b.accout perm newBal = .ok acc) :
    ∃ ast' prev, b.accin.ast.insertOrUpdateAsset perm b.assetId newBal = .ok (ast', prev) ∧
      acc.ast = ast' ∧ acc.consumeAuth = b.accin.consumeAuth := by
  obtain ⟨⟨ast', prev⟩, hast, hacc⟩ := bind_eq_ok.mp h
  rw [← pure_eq_ok.mp hacc]
  exact ⟨ast', prev, hast, rfl, rfl⟩

/-- A transaction that passes the checks is written, with what the builder hashed. -/
theorem Grown.written {ds : List HashOut} (hast : accin.ast.Reachable perm)
    (hb : Grown perm accin assetId cs b) (htx : Built perm b tx)
    (ht : Represents (hashOutput perm) STATE_TREE_DEPTH ds t)
    (hlen : ds.length ≤ 2 ^ STATE_TREE_DEPTH) (hproved : ProvedIn perm t tx a)
    (hchecked : Checked tx) (sigs : TxSignatureTargets) :
    ∃ w slots,
      (tx.privTx a.accinProof a.inotesProofs a.rejectedProofs a.subpoolProof).setWitness perm sigs =
        .ok w ∧
      NoteConstraints perm w ∧ b.slots tx.accout tx.dinotes tx.donotes = .ok slots ∧
      w.Holds perm slots ∧ slots.accin = accin ∧ slots.accout = tx.accout ∧
      ∀ i note position, slots.inotes i = .active note position → position < ORDER := by
  have haccin : tx.accin = accin := htx.account.trans hb.account
  have hasset := hb.assetId_eq htx a.accinProof a.inotesProofs a.rejectedProofs a.subpoolProof
  obtain ⟨newBal, haccout, hbalance⟩ := htx.balance_total
  obtain ⟨ast', prev, hupdate, hout, -⟩ := accout_eq_ok haccout
  rw [hb.account, hb.asset_id, ← haccin] at hupdate
  rw [← haccin] at hast
  obtain ⟨asts, hasts, hastw⟩ :=
    @setAstWitness_spec perm (tx.privTx a.accinProof a.inotesProofs a.rejectedProofs a.subpoolProof)
      ast' newBal prev hast (by rw [hasset]; exact hupdate) hout
  obtain ⟨r, r', hr, hr', -⟩ := hastw.update
  have hin := setWitness_eq hr
  have hout := setWitness_eq hr'
  obtain ⟨pos, c, -, -, haccproof⟩ := hproved.account
  rw [merkleProof_represents ht stateTree_pos hlen] at haccproof
  have haccproof := Except.ok.inj haccproof
  obtain ⟨inotes, onotes, notes, hinotes, honotes, hnotes, hnotesw⟩ :=
    (hb.goodNotes htx hproved).setNotesWitness a.accinProof a.subpoolProof ht hlen
      (show _ = (⟨(accountTarget tx.accin r).subpoolId, derivePublicIdentifier perm
        (accountTarget tx.accin r).privateIdentifier⟩ : AccountAddressTarget) by rw [haccin]; rfl)
  have hmain : merkleTarget MAIN_POOL_CONFIG_DEPTH a.subpoolProof.mainPoolProof =
      .ok (StateSync.pathTarget MAIN_POOL_CONFIG_DEPTH a.subpoolProof.mainPoolProof.siblings
        a.subpoolProof.mainPoolProof.path) := merkleTarget_iff.mpr ⟨hproved.subpool, rfl⟩
  have hroot : a.accinProof.root = stateRoot perm ds := by
    rw [← haccproof]
    rfl
  have hwritten := hnotes hchecked
  rw [← hasset] at hwritten hnotesw
  rw [← hroot] at hnotesw
  obtain ⟨hinlen, houtlen⟩ := amounts_length hchecked
  rw [hb.asset_id, ← hasset] at hbalance
  refine ⟨_, ⟨accin, tx.accout, inotes, onotes⟩, bind_eq_ok.mpr ⟨_, proveOrPanic_eq_ok.mpr hmain,
    bind_eq_ok.mpr ⟨_, proveOrPanic_eq_ok.mpr hin, bind_eq_ok.mpr ⟨_, proveOrPanic_eq_ok.mpr hout,
      bind_eq_ok.mpr ⟨_, hasts, bind_eq_ok.mpr ⟨_, proveOrPanic_eq_ok.mpr
        (haccproof ▸ merkleTarget_proofOf _ _ _), bind_eq_ok.mpr ⟨_, hwritten, rfl⟩⟩⟩⟩⟩⟩, ?_, ?_, ?_⟩
  · exact targets_constraints hin hout hastw hnotesw
      (targets_balance hastw hnotesw hinlen houtlen hbalance)
  · rw [SpendTxBuilder.slots, ← htx.rejected_inotes, ← htx.inotes, ← htx.onotes, hinotes, honotes,
      hb.account]
    rfl
  · obtain ⟨hholds, hpos⟩ := targets_holds hin hout
      (show NotesWitness perm _ _ _ _ (⟨accin, tx.accout, inotes, onotes⟩ : Client.BuiltPrivTx).inotes
        (⟨accin, tx.accout, inotes, onotes⟩ : Client.BuiltPrivTx).onotes _ from hnotesw) haccin.symm rfl
    exact ⟨hholds, rfl, rfl, hpos⟩

/-- The witness checks the notes. -/
theorem provable_checked {sigs : TxSignatureTargets} (h : Provable perm sigs (tx.attach a)) :
    Checked (tx.attach a) := by
  obtain ⟨ptx, w, hptx, hw, -, -⟩ := h
  rw [intoPrivTx_attach] at hptx
  obtain rfl := Except.ok.inj hptx
  obtain ⟨_, -, hw⟩ := bind_eq_ok.mp hw
  obtain ⟨_, -, hw⟩ := bind_eq_ok.mp hw
  obtain ⟨_, -, hw⟩ := bind_eq_ok.mp hw
  obtain ⟨_, -, hw⟩ := bind_eq_ok.mp hw
  obtain ⟨_, -, hw⟩ := bind_eq_ok.mp hw
  obtain ⟨notes, hnotes, -⟩ := bind_eq_ok.mp hw
  exact setNotesWitness_checked hnotes

/-- A transaction that passes the checks is provable exactly if the signed hash is the one of the
circuit. -/
theorem Grown.provable_iff {ds : List HashOut} (hast : accin.ast.Reachable perm)
    (hb : Grown perm accin assetId cs b) (htx : Built perm b (tx.attach a))
    (ht : Represents (hashOutput perm) STATE_TREE_DEPTH ds t)
    (hlen : ds.length ≤ 2 ^ STATE_TREE_DEPTH) (hproved : ProvedIn perm t (tx.attach a) a)
    (hchecked : Checked (tx.attach a)) (sigs : TxSignatureTargets) :
    Provable perm sigs (tx.attach a) ↔ accin.consumeAuth.Regular ∨
      ∃ slots, b.slots tx.accout tx.dinotes tx.donotes = .ok slots ∧ DigestCollision perm slots := by
  obtain ⟨w, slots, hw, hconstraints, hslots, hholds, haccin, haccout, hpos⟩ :=
    hb.written hast htx ht hlen hproved hchecked sigs
  obtain ⟨newBal, hnewBal, -⟩ := htx.balance
  obtain ⟨ast', prev, -, -, hkey⟩ := accout_eq_ok hnewBal
  obtain ⟨slots', hslots', hhash⟩ := htx.hash
  obtain rfl := Except.ok.inj (hslots.symm.trans hslots')
  have hagrees := txHash_agrees_iff hholds hpos (by rw [haccout, haccin, hkey, hb.account]) hhash
  rw [haccin] at hagrees
  constructor
  · rintro ⟨ptx, w', hptx, hw', -, htxHash⟩
    rw [intoPrivTx_attach] at hptx
    obtain rfl := Except.ok.inj hptx
    obtain rfl := Except.ok.inj (hw.symm.trans hw')
    exact (hagrees.mp htxHash).imp_right fun hcollision => ⟨slots, hslots, hcollision⟩
  · intro hregular
    refine ⟨_, w, intoPrivTx_attach tx a, hw, hconstraints, hagrees.mpr (hregular.imp_right ?_)⟩
    rintro ⟨slots', hslots', hcollision⟩
    rwa [Except.ok.inj (hslots.symm.trans hslots')]

theorem ProvedIn.attach (h : ProvedIn perm t tx a) : ProvedIn perm t (tx.attach a) a :=
  ⟨h.account, h.rejected, h.inotes, h.subpool, h.signed⟩

end Builds


/-- The calls that end in a provable transaction: a slot stays free on both sides, the seeds are
drawn last, and the consume key is regular, up to collisions. -/
theorem built_spend_provable (perm : State → State) {accin : StandardAccount} {assetId : F}
    {cs : List SpendCall} {b₀ b : SpendTxBuilder} {tx : BuiltSpendTx} {ops : List (TreeOp HashOut)}
    {t₀ t : MerkleTree HashOut} (hast : accin.ast.Reachable perm)
    (hnew : SpendTxBuilder.new accin assetId = .ok b₀) (hcalls : b₀.calls perm cs = .ok b)
    (hbuild : b.build perm = .ok tx)
    (htree : MerkleTree.new (hashOutput perm) STATE_TREE_DEPTH = .ok t₀)
    (hrun : runTree (hashOutput perm) ops t₀ = some t) (a : Attached)
    (hproved : ProvedIn perm t tx a) (sigs : TxSignatureTargets) :
    Provable perm sigs (tx.attach a) ↔ Fits cs ∧ (accin.consumeAuth.Regular ∨
      ∃ slots, b.slots tx.accout tx.dinotes tx.donotes = .ok slots ∧ DigestCollision perm slots) := by
  obtain ⟨t₁, hnew₁, hempty⟩ := new_represents (hashOutput perm) stateTree_pos
  obtain rfl := Except.ok.inj (htree.symm.trans hnew₁)
  obtain ⟨ht, hlen⟩ := run_represents (hashOutput_lawful perm) stateTree_pos hempty (Nat.zero_le _) hrun
  have hb : Grown perm accin assetId cs b := (grown_new hnew).calls hcalls
  have htx := (build_eq_ok hbuild).attach a
  constructor
  · intro hprovable
    have hchecked := provable_checked hprovable
    exact ⟨(hb.checked_iff htx).mp hchecked,
      (hb.provable_iff hast htx ht hlen hproved.attach hchecked sigs).mp hprovable⟩
  · rintro ⟨hfits, hregular⟩
    have hchecked := (hb.checked_iff htx).mpr hfits
    exact (hb.provable_iff hast htx ht hlen hproved.attach hchecked sigs).mpr hregular

/-! ## Payments -/

/-- One call and then the seeds. -/
theorem fits_single (c : SpendCall) (dinotes donotes : ℕ → HashOut) :
    Fits [c, .fillDinotes dinotes, .fillDonotes donotes] := by
  refine ⟨?_, ⟨[c], .fillDinotes dinotes, [.fillDonotes donotes], rfl, rfl, fun c' hc' => ?_⟩,
    ⟨[c, .fillDinotes dinotes], .fillDonotes donotes, [], rfl, rfl,
      fun c' hc' => absurd hc' List.not_mem_nil⟩⟩
  · have hcount : ∀ p : SpendCall → Bool,
        List.countP p [c, .fillDinotes dinotes, .fillDonotes donotes] ≤ 3 :=
      fun p => List.countP_le_length
    have hrejected := hcount SpendCall.isRejected
    have hin := hcount SpendCall.isInput
    have hout := hcount SpendCall.isOutput
    rw [show NOTE_BATCH = 7 from rfl]
    omega
  · rw [List.mem_singleton.mp hc']
    rfl

/-- A path of zeros and some signatures. -/
def attached (accinProof : MerkleProof HashOut) : Attached where
  accinProof := accinProof
  inotesProofs := []
  rejectedProofs := []
  subpoolProof := ⟨0, ⟨0, List.replicate MAIN_POOL_CONFIG_DEPTH 0,
    List.replicate MAIN_POOL_CONFIG_DEPTH false, 0, 0, 0⟩⟩
  spendSig := some ⟨generator, 0⟩
  consumeSig := some ⟨generator, 0⟩
  approvalSig := some ⟨generator, 0⟩

/-- Payments of nothing are built, and the account is the only leaf of a tree. -/
theorem payments_setting (perm : State → State) {n : ℕ} (hpos : 0 < n) (hroom : n ≤ NOTE_BATCH) :
    ∃ acc b₀ b tx t₀ t ops a, acc.ast.Reachable perm ∧ acc.consumeAuth.Regular ∧
      SpendTxBuilder.new acc 1 = .ok b₀ ∧ b₀.calls perm (payments (List.replicate n 0)) = .ok b ∧
      b.build perm = .ok tx ∧ MerkleTree.new (hashOutput perm) STATE_TREE_DEPTH = .ok t₀ ∧
      runTree (hashOutput perm) ops t₀ = some t ∧ ProvedIn perm t tx a := by
  obtain ⟨acc, hnew, hnonce, hauth⟩ := exists_active perm
  obtain ⟨b₀, b, hpaid⟩ := @payments_run perm acc hnonce 1 (List.replicate n 0)
    (by rwa [List.length_replicate])
  have htotal : total (List.replicate n 0) = 0 := by
    rw [total, List.map_replicate, List.sum_replicate]
    exact Nat.mul_zero n
  obtain ⟨hsafe, hcovered⟩ := hpaid.safe hnew one_ne_zero hauth htotal
  have hast : acc.ast.Reachable perm := .new hnew
  have hb : Grown perm acc 1 ([] ++ payments (List.replicate n 0)) b :=
    (grown_new hpaid.new).calls hpaid.calls
  have hm := AccountStateTree.new_eq_ok hnew
  rw [← hb.account] at hm
  have houtputs : b.outputNotes ≠ [] := by
    intro hnil
    have hcount := hb.outputs
    rw [hnil, List.nil_append, payments, List.countP_append, List.map_replicate,
      List.countP_replicate] at hcount
    simp only [List.length_nil, SpendCall.isOutput, if_true] at hcount
    omega
  obtain ⟨tx, hbuild⟩ := hb.build_ok hm (fun h => houtputs h.2.1) hsafe hcovered hpaid.filled
  have htx := build_eq_ok hbuild
  obtain ⟨c, hc⟩ := (commitment_iff hast.root).mpr (by
    rw [hauth]
    exact fun h => absurd h Bool.false_ne_true)
  obtain ⟨t₀, htree, hempty⟩ := new_represents (hashOutput perm) stateTree_pos
  obtain ⟨t, hrun, ht⟩ := run_insert (hashOutput_lawful perm) hempty [c] (by
    rw [List.length_nil, List.length_singleton]
    decide)
  refine ⟨acc, b₀, b, tx, t₀, t, _, attached (proofOf (hashOutput perm) STATE_TREE_DEPTH [c] 0), hast,
    ?_, hpaid.new, hpaid.calls, hbuild, htree, hrun, ?_⟩
  · rw [hauth]
    exact ⟨fun h => absurd h Bool.false_ne_true, fun _ => .inl rfl⟩
  · refine {
      account := ⟨0, c, ?_, ?_, ?_⟩
      rejected := ?_
      inotes := ?_
      subpool := List.length_replicate
      signed := ⟨fun _ => Option.some_ne_none _, fun _ => Option.some_ne_none _,
        fun _ => Option.some_ne_none _⟩ }
    · rw [htx.account, hpaid.account]
      exact hc
    · rw [ht.leaves]
      rfl
    · exact merkleProof_represents ht stateTree_pos
        (show ([c] : List HashOut).length ≤ 2 ^ STATE_TREE_DEPTH from Nat.one_le_two_pow) 0
    · rw [htx.rejected_inotes, hpaid.notes.1]
      exact .nil
    · rw [htx.inotes, hpaid.notes.2]
      exact .nil

/-- A payment of nothing is provable. -/
theorem built_spend_provable_payment : ∃ acc b₀ b tx t₀ t ops a, acc.ast.Reachable id ∧
    SpendTxBuilder.new acc 1 = .ok b₀ ∧ b₀.calls id (payments [0]) = .ok b ∧
    b.build id = .ok tx ∧ MerkleTree.new (hashOutput id) STATE_TREE_DEPTH = .ok t₀ ∧
    runTree (hashOutput id) ops t₀ = some t ∧ ProvedIn id t tx a ∧
    ∀ sigs, Provable id sigs (tx.attach a) := by
  obtain ⟨acc, b₀, b, tx, t₀, t, ops, a, hast, hregular, hnew, hcalls, hbuild, htree, hrun, hproved⟩ :=
    payments_setting id Nat.one_pos (by decide)
  refine ⟨acc, b₀, b, tx, t₀, t, ops, a, hast, hnew, hcalls, hbuild, htree, hrun, hproved,
    fun sigs => ?_⟩
  exact (built_spend_provable id hast hnew hcalls hbuild htree hrun a hproved sigs).mpr
    ⟨fits_single (.addOutputNote .default 0 0) (fun _ => 0) fun _ => 0, .inl hregular⟩

/-- Seven payments fill the batch: they are built, and never proven. -/
theorem full_batch_refused : ∃ acc b₀ b tx t₀ t ops a, acc.ast.Reachable id ∧
    acc.consumeAuth.Regular ∧ SpendTxBuilder.new acc 1 = .ok b₀ ∧
    b₀.calls id (payments (List.replicate 7 0)) = .ok b ∧
    b.build id = .ok tx ∧ MerkleTree.new (hashOutput id) STATE_TREE_DEPTH = .ok t₀ ∧
    runTree (hashOutput id) ops t₀ = some t ∧ ProvedIn id t tx a ∧
    ∀ sigs, ¬ Provable id sigs (tx.attach a) := by
  obtain ⟨acc, b₀, b, tx, t₀, t, ops, a, hast, hregular, hnew, hcalls, hbuild, htree, hrun, hproved⟩ :=
    payments_setting id (show 0 < 7 by decide) (le_refl _)
  refine ⟨acc, b₀, b, tx, t₀, t, ops, a, hast, hregular, hnew, hcalls, hbuild, htree, hrun, hproved,
    fun sigs hprovable => ?_⟩
  have hb : Grown id acc 1 ([] ++ payments (List.replicate 7 0)) b := (grown_new hnew).calls hcalls
  have hfits := (hb.checked_iff ((build_eq_ok hbuild).attach a)).mp (provable_checked hprovable)
  exact absurd hfits.room (by decide)

end Doxa.Client.Spend
