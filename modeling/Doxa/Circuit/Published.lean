import Doxa.Circuit.Transfer

/-!
# What a transaction publishes

The nullifier of an input note is hashed from its commitment, the position `inotesPos` and
the nullifier key. Membership is proved with the bits of the Merkle path, and no constraint
ties the position to them: the note has one nullifier for every position. The commitments
of the output notes are hashed into the signed transaction hash, but the public inputs
carry those of the dummy notes.
-/

namespace Doxa.Circuit

variable (perm : State → State)

/-! ## Nullifiers of input notes -/

theorem noteNullifierPreimage_inj (comm nk : HashOut) (pos pos' : F) :
    noteNullifierPreimage comm pos nk = noteNullifierPreimage comm pos' nk ↔ pos = pos' := by
  simp [noteNullifierPreimage]

namespace TxCircuitTargets

variable (t t' : TxCircuitTargets)

/-- What the nullifier of the note in slot `i` hashes. -/
def nullifierPreimage (i : Fin NOTE_BATCH) : List F :=
  noteNullifierPreimage (t.inotesComm perm i) (t.inotesPos i) (t.nk perm)

/-- Two real private transactions consume one note, at one leaf position and under one
nullifier key. -/
structure SpendsSame (i j : Fin NOTE_BATCH) : Prop where
  not_fake_tx : t.notFakeTx = 1 ∧ t'.notFakeTx = 1
  is_priv_tx : t.isPrivTx = 1 ∧ t'.isPrivTx = 1
  active : t.inotesIsactive i = 1 ∧ t'.inotesIsactive j = 1
  comm : t.inotesComm perm i = t'.inotesComm perm j
  leaf : (t.inotesNctMerkle i).bits = (t'.inotesNctMerkle j).bits
  nk : t.nk perm = t'.nk perm

/-- The assignment with other positions. -/
def reposition (inotesPos : Fin NOTE_BATCH → F) : TxCircuitTargets :=
  t.rewire perm inotesPos t.root t.mainpoolConfigRoot

variable {perm t t'}

theorem Satisfied.reposition (h : t.Satisfied perm) (inotesPos : Fin NOTE_BATCH → F) :
    (t.reposition perm inotesPos).Satisfied perm :=
  h.rewire inotesPos h.act h.inotes.membership h.subpool

theorem inotesNull_of_active {i : Fin NOTE_BATCH} (hactive : t.inotesIsactive i = 1) :
    (t.publicTargets perm).inotesNull i = hashNoPad perm (t.nullifierPreimage perm i) := by
  change ifElseHash (t.inotesIsactive i) _ _ = _
  rw [hactive, ifElseHash_one]
  rfl

theorem SpendsSame.nullifier_eq_iff {i j : Fin NOTE_BATCH} (hs : SpendsSame perm t t' i j) :
    (t.publicTargets perm).inotesNull i = (t'.publicTargets perm).inotesNull j ↔
      t.inotesPos i = t'.inotesPos j ∨
        Collision perm (t.nullifierPreimage perm i) (t'.nullifierPreimage perm j) := by
  have hpreimage : t.nullifierPreimage perm i = t'.nullifierPreimage perm j ↔
      t.inotesPos i = t'.inotesPos j := by
    unfold nullifierPreimage
    rw [hs.comm, hs.nk]
    exact noteNullifierPreimage_inj _ _ _ _
  rw [inotesNull_of_active hs.active.1, inotesNull_of_active hs.active.2, hashNoPad_eq_iff,
    hpreimage]

/-- Two satisfying assignments that spend one note expose one nullifier exactly when they
name one position, up to a collision of the two preimages; and every satisfying assignment
has a twin that spends the same note at any other position. -/
theorem nullifier_unique (h : t.Satisfied perm) (i : Fin NOTE_BATCH) :
    (∀ (t' : TxCircuitTargets) (j : Fin NOTE_BATCH), t'.Satisfied perm →
      SpendsSame perm t t' i j →
      ((t.publicTargets perm).inotesNull i = (t'.publicTargets perm).inotesNull j ↔
        t.inotesPos i = t'.inotesPos j ∨
          Collision perm (t.nullifierPreimage perm i) (t'.nullifierPreimage perm j))) ∧
    (t.notFakeTx = 1 → t.isPrivTx = 1 → t.inotesIsactive i = 1 → ∀ pos : F,
      ∃ t' : TxCircuitTargets, t'.Satisfied perm ∧ SpendsSame perm t t' i i ∧
        t'.inotesPos i = pos) := by
  refine ⟨fun t' j _ hs => hs.nullifier_eq_iff, ?_⟩
  intro hreal hpriv hactive pos
  have htwin : SpendsSame perm t (t.reposition perm fun _ => pos) i i := {
    not_fake_tx := ⟨hreal, hreal⟩
    is_priv_tx := ⟨hpriv, hpriv⟩
    active := ⟨hactive, hactive⟩
    comm := rfl
    leaf := rfl
    nk := rfl }
  exact ⟨t.reposition perm fun _ => pos, h.reposition _, htwin, rfl⟩

end TxCircuitTargets

/-- The lanes moved by one, a permutation under which the nullifier shows the position. -/
def rotate (s : State) : State := fun i => s (i + 1)

theorem rotate_deriveNoteNullifier (comm nk : HashOut) (pos : F) :
    deriveNoteNullifier rotate comm pos nk 2 = pos := rfl

/-- The payment with position `pos` for its input note and the dummy value `donote`. -/
def paymentAt (pos : F) (donote : HashOut) : TxCircuitTargets :=
  (payment.relabel pos donote).targets perm

theorem paymentAt_satisfied (pos : F) (donote : HashOut) :
    (paymentAt perm pos donote).Satisfied perm :=
  (payment_valid.relabel pos donote).satisfied perm

theorem paymentAt_spendsSame (pos pos' : F) (donote donote' : HashOut) :
    TxCircuitTargets.SpendsSame perm (paymentAt perm pos donote) (paymentAt perm pos' donote')
      0 0 where
  not_fake_tx := ⟨rfl, rfl⟩
  is_priv_tx := ⟨rfl, rfl⟩
  active := ⟨rfl, rfl⟩
  comm := rfl
  leaf := rfl
  nk := rfl

/-- Two payments at one position expose one nullifier. -/
theorem payment_nullifier_unique :
    (paymentAt rotate 1 0).Satisfied rotate ∧ (paymentAt rotate 1 1).Satisfied rotate ∧
      ((paymentAt rotate 1 0).publicTargets rotate).inotesNull 0 =
        ((paymentAt rotate 1 1).publicTargets rotate).inotesNull 0 := by
  have hunique := TxCircuitTargets.nullifier_unique (paymentAt_satisfied rotate 1 0) 0
  have hsame := paymentAt_spendsSame rotate 1 1 0 1
  exact ⟨paymentAt_satisfied rotate 1 0, paymentAt_satisfied rotate 1 1,
    (hunique.1 _ 0 (paymentAt_satisfied rotate 1 1) hsame).mpr (.inl rfl)⟩

theorem paymentAt_nullifier (pos : F) (donote : HashOut) :
    ((paymentAt rotate pos donote).publicTargets rotate).inotesNull 0 2 = pos := by
  rw [TxCircuitTargets.inotesNull_of_active rfl]
  exact rotate_deriveNoteNullifier _ _ pos

/-- The payment spends its input note at positions `1` and `0`: the nullifiers differ, under
every permutation up to a collision. -/
theorem note_spent_twice :
    ((paymentAt rotate 1 0).publicTargets rotate).inotesNull 0 ≠
      ((paymentAt rotate 0 0).publicTargets rotate).inotesNull 0 ∧
    ∀ perm : State → State,
      (paymentAt perm 1 0).Satisfied perm ∧ (paymentAt perm 0 0).Satisfied perm ∧
      TxCircuitTargets.SpendsSame perm (paymentAt perm 1 0) (paymentAt perm 0 0) 0 0 ∧
      (((paymentAt perm 1 0).publicTargets perm).inotesNull 0 =
          ((paymentAt perm 0 0).publicTargets perm).inotesNull 0 →
        Collision perm ((paymentAt perm 1 0).nullifierPreimage perm 0)
          ((paymentAt perm 0 0).nullifierPreimage perm 0)) := by
  refine ⟨?_, fun perm => ⟨paymentAt_satisfied perm 1 0, paymentAt_satisfied perm 0 0,
    paymentAt_spendsSame perm 1 0 0 0, ?_⟩⟩
  · intro heq
    have hpos := congrFun heq 2
    rw [paymentAt_nullifier, paymentAt_nullifier] at hpos
    exact one_ne_zero hpos
  · intro heq
    rcases (paymentAt_spendsSame perm 1 0 0 0).nullifier_eq_iff.mp heq with hpos | hcol
    · exact absurd hpos one_ne_zero
    · exact hcol

/-! ## Commitments of output notes -/

namespace TxCircuitTargets

variable (t : TxCircuitTargets)

/-- The published output commitments are those of the created notes, and those that are
signed. -/
structure PublishesCreated : Prop where
  active : ∀ j, t.onotesIsactive j = 1 →
    (t.publicTargets perm).onotesComm j = deriveNoteCommitment perm (t.onotes j)
  inactive : ∀ j, t.onotesIsactive j = 0 →
    (t.publicTargets perm).onotesComm j = doubleHash perm (t.donotes j)
  signed : (t.publicTargets perm).onotesComm = t.derivedOnotesComm perm

/-- What the published commitment of slot `j` hashes. -/
def donotePreimage (j : Fin NOTE_BATCH) : List F :=
  List.ofFn (hashNoPad perm (List.ofFn (t.donotes j)))

variable {perm t}

theorem derivedOnotesComm_eq_iff (halloc : t.Allocated) (j : Fin NOTE_BATCH) :
    t.donotesComm perm j = t.derivedOnotesComm perm j ↔
      t.onotesIsactive j = 0 ∨ t.donotesComm perm j = t.onotesComm perm j := by
  unfold derivedOnotesComm
  rcases isBool_iff.mp (halloc.onotes_isactive j) with hj | hj
  · rw [hj, ifElseHash_zero]
    exact ⟨fun _ => .inl rfl, fun _ => rfl⟩
  · rw [hj, ifElseHash_one]
    exact ⟨.inr, fun h => h.resolve_left one_ne_zero⟩

/-- The commitment of a dummy note is that of a note only by a collision: the preimages have
different lengths. -/
theorem donotesComm_eq_iff (j : Fin NOTE_BATCH) :
    t.donotesComm perm j = t.onotesComm perm j ↔
      Collision perm (t.donotePreimage perm j) (t.onotes j).preimage := by
  have hne : t.donotePreimage perm j ≠ (t.onotes j).preimage := by
    intro heq
    have hlength := congrArg List.length heq
    rw [StandardNoteTarget.preimage_length, donotePreimage, List.length_ofFn] at hlength
    omega
  change hashNoPad perm (t.donotePreimage perm j) = hashNoPad perm (t.onotes j).preimage ↔ _
  rw [hashNoPad_eq_iff]
  exact or_iff_right hne

/-- A satisfying assignment publishes the created notes exactly when no output slot is
active, up to a collision between a dummy note and the note of an active slot. -/
theorem publishes_created (h : t.Satisfied perm) :
    PublishesCreated perm t ↔ ∀ j, t.onotesIsactive j = 0 ∨
      Collision perm (t.donotePreimage perm j) (t.onotes j).preimage := by
  have hslot : ∀ j, t.donotesComm perm j = t.derivedOnotesComm perm j ↔ t.onotesIsactive j = 0 ∨
      Collision perm (t.donotePreimage perm j) (t.onotes j).preimage := by
    intro j
    rw [derivedOnotesComm_eq_iff h.allocated, donotesComm_eq_iff]
  constructor
  · intro hp j
    exact (hslot j).mp (congrFun hp.signed j)
  · intro hinactive
    have hsigned : t.donotesComm perm = t.derivedOnotesComm perm :=
      funext fun j => (hslot j).mpr (hinactive j)
    refine ⟨?_, fun _ _ => rfl, hsigned⟩
    intro j hj
    have hslotj := (hinactive j).resolve_left (hj ▸ one_ne_zero)
    exact (donotesComm_eq_iff j).mpr hslotj

end TxCircuitTargets

/-- The account only consumes its note of five units. -/
def collect : Transfer :=
  { payment with accoutAmt := ![15, 0, 0, 0, 0, 0, 0, 0], onoteAmt := 0, onoteActive := 0 }

theorem collect_valid : collect.Valid :=
  { payment_valid with
    onote_active := isBool_iff.mpr (.inl rfl)
    absent_accout := by decide +kernel
    rhs := { range := by decide +kernel, limb := by decide +kernel } }

theorem collect_publishes_created :
    (collect.targets id).Satisfied id ∧ TxCircuitTargets.PublishesCreated id (collect.targets id) := by
  have hiff := TxCircuitTargets.publishes_created (collect_valid.satisfied id)
  refine ⟨collect_valid.satisfied id, hiff.mpr fun j => .inl ?_⟩
  exact Transfer.inFirst_all (· = 0) rfl rfl j

/-- The payment creates a note of three units and publishes the commitment of a dummy note,
under every permutation up to a collision. -/
theorem dummy_commitment_published :
    ¬ TxCircuitTargets.PublishesCreated rotate (payment.targets rotate) ∧
    ∀ perm : State → State,
      (payment.targets perm).Satisfied perm ∧ (payment.targets perm).notFakeTx = 1 ∧
      (payment.targets perm).onotesIsactive 0 = 1 ∧
      (TxCircuitTargets.PublishesCreated perm (payment.targets perm) →
        Collision perm ((payment.targets perm).donotePreimage perm 0)
          ((payment.targets perm).onotes 0).preimage) := by
  refine ⟨fun hp => ?_, fun perm => ⟨payment_valid.satisfied perm, rfl, rfl, fun hp => ?_⟩⟩
  · have hcomm : doubleHash rotate 0 =
        deriveNoteCommitment rotate (payment.note rotate payment.onoteAmt) := hp.active 0 rfl
    revert hcomm
    decide +kernel
  · exact (TxCircuitTargets.donotesComm_eq_iff 0).mp (hp.active 0 rfl)

end Doxa.Circuit
