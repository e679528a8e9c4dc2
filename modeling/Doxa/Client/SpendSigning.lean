import Doxa.Circuit.Authority
import Doxa.Client.Spend

/-!
# Which signatures a spend needs

`required_signatures`, `spend_sign` and `consume_sign` decide from the lists of notes what the
circuit decides from the flags of its slots. The two signing functions refuse exactly what the
circuit does not check. `required_signatures` leaves out the rejected notes, which occupy input
slots: a transaction that only rejects notes, from an account that consumes under its own key,
needs the consume signature and is said not to (`signatures_match_iff`).
-/

namespace Doxa.Client.Spend

open Lib Circuit Trees

/-! ## Signing -/

/-- The errors of the signing functions; `panic` is the one of `encode`. -/
inductive TxSignError
  | consumeNotRequired (hasInputNotes hasOutputNotes : Bool)
  | consumeDelegated
  | consumeKeyNotSet
  | spendNotRequired
  | spendKeyNotSet
  | keyMismatch (keyType : String) (expected provided : CompressedPublicKey)
  | panic
  deriving DecidableEq

/-- `PrivateKey::public_key`, compressed. -/
def publicKey (sk : Scalar) : Except TxSignError CompressedPublicKey :=
  match encode (scalarMul generator sk) with
  | some w => .ok ![w.c0, w.c1, w.c2, w.c3, w.c4]
  | none => .error .panic

/-- The account's key `pk`, if it is set and the private key's. -/
def checkKey (keyType : String) (notSet : TxSignError) (pk : Option CompressedPublicKey)
    (sk : Scalar) : Except TxSignError Unit :=
  match pk with
  | none => .error notSet
  | some expected => do
    let provided ← publicKey sk
    revertIf (expected ≠ provided) (.keyMismatch keyType expected provided)

namespace BuiltSpendTx

variable (schnorrSign : Scalar → HashOut → Signature) (self : BuiltSpendTx)

/-- `consume_sign`; `schnorrSign` draws its nonce. -/
def consumeSign (consumeSk : Scalar) : Except TxSignError BuiltSpendTx := do
  let noInputNotes := self.inotes.isEmpty && self.rejectedInotes.isEmpty
  let hasOutputNotes := !self.onotes.isEmpty
  revertIf (noInputNotes || hasOutputNotes) (.consumeNotRequired (!noInputNotes) hasOutputNotes)
  revertIf (!self.accin.consumeAuth.config) .consumeDelegated
  checkKey "consume" .consumeKeyNotSet self.accin.consumeAuth.pk consumeSk
  return { self with consumeSig := some (schnorrSign consumeSk self.txHash) }

def spendSign (spendSk : Scalar) : Except TxSignError BuiltSpendTx := do
  revertIf self.onotes.isEmpty .spendNotRequired
  checkKey "spend" .spendKeyNotSet self.accin.spendAuth.spendPk spendSk
  return { self with spendSig := some (schnorrSign spendSk self.txHash) }

variable (tx : BuiltSpendTx)

/-- The transaction spends, and it consumes under the account's own key. -/
def Spends : Prop := tx.onotes ≠ []

def Consumes : Prop :=
  (tx.inotes ≠ [] ∨ tx.rejectedInotes ≠ []) ∧ tx.onotes = [] ∧
    tx.accin.consumeAuth.config = true

/-- There are rejected notes and no others, under the account's own key. -/
def OnlyRejects : Prop :=
  tx.rejectedInotes ≠ [] ∧ tx.inotes = [] ∧ tx.onotes = [] ∧
    tx.accin.consumeAuth.config = true

/-- What the client asks for and signs is what the circuit checks on the witness `w`. -/
structure SignaturesMatch (w : TxCircuitTargets) : Prop where
  spend : tx.requiredSignatures.spend = true ↔ w.isSpendReq = 1
  consume : tx.requiredSignatures.consume = true ↔ w.checkConsumeSig = 1
  spend_refused : ∀ sk, tx.spendSign schnorrSign sk = .error .spendNotRequired ↔ w.isSpendReq ≠ 1
  consume_refused : ∀ sk, (tx.consumeSign schnorrSign sk = .error .consumeDelegated ∨
    ∃ hasIn hasOut, tx.consumeSign schnorrSign sk = .error (.consumeNotRequired hasIn hasOut)) ↔
      w.checkConsumeSig ≠ 1
  spend_signed : ∀ sk pk, tx.accin.spendAuth.spendPk = some pk → publicKey sk = .ok pk →
    ((∃ signed, tx.spendSign schnorrSign sk = .ok signed) ↔ w.isSpendReq = 1)
  consume_signed : ∀ sk pk, tx.accin.consumeAuth.pk = some pk → publicKey sk = .ok pk →
    ((∃ signed, tx.consumeSign schnorrSign sk = .ok signed) ↔ w.checkConsumeSig = 1)

end BuiltSpendTx

/-! ## The client's side -/

section Client

variable {tx : BuiltSpendTx} {schnorrSign : Scalar → HashOut → Signature} {sk : Scalar}

theorem checkKey_own {keyType : String} {notSet : TxSignError} {pk : CompressedPublicKey}
    (hsk : publicKey sk = .ok pk) : checkKey keyType notSet (some pk) sk = .ok () := by
  refine bind_eq_ok.mpr ⟨pk, hsk, ?_⟩
  exact if_neg (not_not.mpr rfl)

/-- A key that does not fit is refused as such. -/
theorem checkKey_error {keyType : String} {notSet e : TxSignError}
    {pk : Option CompressedPublicKey} (h : checkKey keyType notSet pk sk = .error e) :
    e = notSet ∨ e = .panic ∨ ∃ expected provided, e = .keyMismatch keyType expected provided := by
  cases pk with
  | none => exact .inl (Except.error.inj h).symm
  | some expected =>
    rcases bind_eq_error.mp h with hpanic | ⟨provided, -, hmismatch⟩
    · unfold publicKey at hpanic
      split at hpanic
      · cases hpanic
      · exact .inr (.inl (Except.error.inj hpanic).symm)
    · exact .inr (.inr ⟨expected, provided, (revertIf_eq_error.mp hmismatch).2.symm⟩)

theorem spends_iff : tx.requiredSignatures.spend = true ↔ tx.Spends := by
  rw [BuiltSpendTx.requiredSignatures, BuiltSpendTx.Spends, Bool.not_eq_true', List.isEmpty_eq_false_iff]

/-- The client asks for a consume signature unless it only rejects. -/
theorem consumes_iff :
    tx.requiredSignatures.consume = true ↔ tx.Consumes ∧ ¬ tx.OnlyRejects := by
  rw [BuiltSpendTx.requiredSignatures, BuiltSpendTx.Consumes, BuiltSpendTx.OnlyRejects]
  simp only [Bool.and_eq_true, Bool.not_eq_true', List.isEmpty_eq_false_iff, List.isEmpty_iff]
  tauto

variable (sk) in
/-- `spend_sign` refuses exactly what does not spend. -/
theorem spend_refused_iff : tx.spendSign schnorrSign sk = .error .spendNotRequired ↔ ¬ tx.Spends := by
  rw [BuiltSpendTx.spendSign, bind_eq_error, revertIf_eq_error, BuiltSpendTx.Spends, not_not]
  constructor
  · rintro (⟨hempty, -⟩ | ⟨_, -, hrest⟩)
    · exact List.isEmpty_iff.mp hempty
    · rcases bind_eq_error.mp hrest with hkey | ⟨_, -, hsigned⟩
      · rcases checkKey_error hkey with h | h | ⟨_, _, h⟩ <;> cases h
      · cases hsigned
  · exact fun hempty => .inl ⟨List.isEmpty_iff.mpr hempty, rfl⟩

theorem noInputNotes_iff : ((tx.inotes.isEmpty && tx.rejectedInotes.isEmpty) || !tx.onotes.isEmpty) = true ↔
    ¬ ((tx.inotes ≠ [] ∨ tx.rejectedInotes ≠ []) ∧ tx.onotes = []) := by
  rw [Bool.or_eq_true, Bool.and_eq_true, Bool.not_eq_true', List.isEmpty_eq_false_iff,
    List.isEmpty_iff, List.isEmpty_iff]
  tauto

variable (sk) in
/-- `consume_sign` refuses exactly what does not consume under the account's own key. -/
theorem consume_refused_iff : (tx.consumeSign schnorrSign sk = .error .consumeDelegated ∨
    ∃ hasIn hasOut, tx.consumeSign schnorrSign sk = .error (.consumeNotRequired hasIn hasOut)) ↔
      ¬ tx.Consumes := by
  by_cases hnotes : (tx.inotes ≠ [] ∨ tx.rejectedInotes ≠ []) ∧ tx.onotes = []
  swap
  · refine iff_of_true (.inr ?_) fun hconsumes => hnotes ⟨hconsumes.1, hconsumes.2.1⟩
    exact ⟨_, _, bind_eq_error.mpr (.inl (if_pos (noInputNotes_iff.mpr hnotes)))⟩
  have hpast : tx.consumeSign schnorrSign sk = (do
      revertIf (!tx.accin.consumeAuth.config) .consumeDelegated
      checkKey "consume" .consumeKeyNotSet tx.accin.consumeAuth.pk sk
      return { tx with consumeSig := some (schnorrSign sk tx.txHash) }) := by
    rw [BuiltSpendTx.consumeSign, revertIf_of_not (fun h => noInputNotes_iff.mp h hnotes), ok_bind]
  by_cases hconfig : tx.accin.consumeAuth.config = true
  · refine iff_of_false ?_ (not_not.mpr ⟨hnotes.1, hnotes.2, hconfig⟩)
    have herror : ∀ e, tx.consumeSign schnorrSign sk = .error e → e = .consumeKeyNotSet ∨
        e = .panic ∨ ∃ expected provided, e = .keyMismatch "consume" expected provided := by
      intro e h
      rw [hpast, hconfig, revertIf_of_not (by decide), ok_bind] at h
      rcases bind_eq_error.mp h with hkey | ⟨_, -, hsigned⟩
      · exact checkKey_error hkey
      · cases hsigned
    rintro (h | ⟨_, _, h⟩)
    · rcases herror _ h with h | h | ⟨_, _, h⟩ <;> cases h
    · rcases herror _ h with h | h | ⟨_, _, h⟩ <;> cases h
  · refine iff_of_true (.inl ?_) fun hconsumes => hconfig hconsumes.2.2
    rw [hpast, Bool.not_eq_true _ |>.mp hconfig]
    rfl

variable {pk : CompressedPublicKey}

theorem spend_signed_iff (hkey : tx.accin.spendAuth.spendPk = some pk) (hsk : publicKey sk = .ok pk) :
    (∃ tx', tx.spendSign schnorrSign sk = .ok tx') ↔ tx.Spends := by
  rw [BuiltSpendTx.spendSign, hkey, checkKey_own hsk, ok_bind, BuiltSpendTx.Spends]
  simp only [revertIf_bind_eq_ok, List.isEmpty_iff, pure_eq_ok]
  constructor
  · rintro ⟨_, hne, _⟩
    exact hne
  · intro hne
    exact ⟨_, hne, rfl⟩

theorem consume_signed_iff (hkey : tx.accin.consumeAuth.pk = some pk) (hsk : publicKey sk = .ok pk) :
    (∃ tx', tx.consumeSign schnorrSign sk = .ok tx') ↔ tx.Consumes := by
  rw [BuiltSpendTx.consumeSign, hkey, checkKey_own hsk, ok_bind, BuiltSpendTx.Consumes]
  simp only [revertIf_bind_eq_ok, pure_eq_ok, noInputNotes_iff, Bool.not_eq_true', not_not,
    Bool.not_eq_false]
  constructor
  · rintro ⟨_, hnotes, hconfig, -⟩
    exact ⟨hnotes.1, hnotes.2, hconfig⟩
  · rintro ⟨hin, hout, hconfig⟩
    exact ⟨_, ⟨hin, hout⟩, hconfig, rfl⟩

end Client

/-! ## The circuit's side -/

section Slots

variable {perm : State → State} {tx : BuiltSpendTx} {ptx : BuiltPrivTx} {w : TxCircuitTargets}
variable {sigs : TxSignatureTargets} {accinProof : MerkleProof HashOut}
variable {inotesProofs rejectedProofs : List (MerkleProof HashOut)} {subpoolProof : SubpoolFullProof}

theorem boolTarget_eq_one {b : Bool} : boolTarget b = 1 ↔ b = true := by
  cases b with
  | true => exact iff_of_true rfl rfl
  | false => exact iff_of_false zero_ne_one Bool.false_ne_true

/-- The flags of the slots of a written witness. -/
structure SlotFlags (tx : BuiltSpendTx) (w : TxCircuitTargets) : Prop where
  room : tx.rejectedInotes.length + max tx.inotes.length tx.onotes.length < NOTE_BATCH
  inotes : ∀ i : Fin NOTE_BATCH, w.inotesIsactive i =
    boolTarget (i.val < tx.rejectedInotes.length + tx.inotes.length)
  onotes : ∀ i : Fin NOTE_BATCH, w.onotesIsactive i =
    boolTarget (i.val < tx.rejectedInotes.length + tx.onotes.length)
  pairs : ∀ i : Fin NOTE_BATCH, w.isNotePairRjct i = boolTarget (i.val < tx.rejectedInotes.length)
  config : w.accin.consumeAuth.config = boolTarget tx.accin.consumeAuth.config

theorem inoteTargets_isactive {accin : AccountTarget} {assetId : F} {i : ℕ} {t : InoteTargets}
    (h : ptx.inoteTargets perm accin assetId i = .ok t) :
    t.isactive = boolTarget (i < ptx.rejectedInotes.length + ptx.inotes.length) := by
  rcases slot_cases ptx.rejectedInotes.length ptx.inotes.length i with hi | ⟨hle, hi⟩ | hi
  · rw [BuiltPrivTx.inoteTargets, bySlot_first hi] at h
    obtain ⟨_, -, h⟩ := bind_eq_ok.mp h
    obtain ⟨_, -, h⟩ := bind_eq_ok.mp h
    obtain ⟨_, -, h⟩ := bind_eq_ok.mp h
    rw [decide_eq_true (by omega), ← pure_eq_ok.mp h]
    rfl
  · rw [BuiltPrivTx.inoteTargets, bySlot_second hle hi] at h
    obtain ⟨_, -, h⟩ := bind_eq_ok.mp h
    obtain ⟨_, -, h⟩ := bind_eq_ok.mp h
    obtain ⟨_, -, h⟩ := bind_eq_ok.mp h
    rw [decide_eq_true (by omega), ← pure_eq_ok.mp h]
    rfl
  · rw [BuiltPrivTx.inoteTargets, bySlot_dummy hi] at h
    obtain ⟨_, -, h⟩ := bind_eq_ok.mp h
    rw [decide_eq_false (by omega), ← pure_eq_ok.mp h]
    rfl

theorem onoteTargets_isactive {assetId : F} {i : ℕ} {t : OnoteTargets}
    (h : ptx.onoteTargets assetId i = .ok t) :
    t.isactive = boolTarget (i < ptx.rejectedInotes.length + ptx.onotes.length) := by
  rcases slot_cases ptx.rejectedInotes.length ptx.onotes.length i with hi | ⟨hle, hi⟩ | hi
  · rw [BuiltPrivTx.onoteTargets, bySlot_first hi] at h
    obtain ⟨_, -, h⟩ := bind_eq_ok.mp h
    rw [decide_eq_true (by omega), ← pure_eq_ok.mp h]
    rfl
  · rw [BuiltPrivTx.onoteTargets, bySlot_second hle hi] at h
    obtain ⟨_, -, h⟩ := bind_eq_ok.mp h
    rw [decide_eq_true (by omega), ← pure_eq_ok.mp h]
    rfl
  · rw [BuiltPrivTx.onoteTargets, bySlot_dummy hi] at h
    obtain ⟨_, -, h⟩ := bind_eq_ok.mp h
    rw [decide_eq_false (by omega), ← pure_eq_ok.mp h]
    rfl

/-- What `set_witness` writes of the flags. -/
theorem slotFlags_of_written
    (h : (tx.privTx accinProof inotesProofs rejectedProofs subpoolProof).setWitness perm sigs = .ok w) :
    SlotFlags tx w := by
  obtain ⟨_, -, h⟩ := bind_eq_ok.mp h
  obtain ⟨accin, haccin, h⟩ := bind_eq_ok.mp h
  obtain ⟨_, -, h⟩ := bind_eq_ok.mp h
  obtain ⟨_, -, h⟩ := bind_eq_ok.mp h
  obtain ⟨_, -, h⟩ := bind_eq_ok.mp h
  obtain ⟨notes, hnotes, hw⟩ := bind_eq_ok.mp h
  obtain ⟨_, -, haccin⟩ := bind_eq_ok.mp (proveOrPanic_eq_ok.mp haccin)
  have hroom := (setNotesWitness_checked hnotes).room
  obtain ⟨-, hnotes⟩ := revertIf_bind_eq_ok.mp hnotes
  obtain ⟨-, hnotes⟩ := revertIf_bind_eq_ok.mp hnotes
  obtain ⟨-, hnotes⟩ := revertIf_bind_eq_ok.mp hnotes
  obtain ⟨inotes, hinotes, hnotes⟩ := bind_eq_ok.mp hnotes
  obtain ⟨onotes, honotes, hnotes⟩ := bind_eq_ok.mp hnotes
  rw [← pure_eq_ok.mp hw, ← pure_eq_ok.mp hnotes]
  refine ⟨hroom, fun i => ?_, fun i => ?_, fun i => ?_, ?_⟩
  · have hactive := inoteTargets_isactive (collect_apply (proveOrPanic_eq_ok.mp hinotes) i)
    simp only [BuiltSpendTx.privTx, List.length_map] at hactive
    exact hactive
  · have hactive := onoteTargets_isactive (collect_apply (proveOrPanic_eq_ok.mp honotes) i)
    simp only [BuiltSpendTx.privTx, List.length_map] at hactive
    exact hactive
  · show boolTarget _ = boolTarget _
    simp only [BuiltSpendTx.privTx, List.length_map]
  · show accin.consumeAuth.config = _
    rw [← pure_eq_ok.mp haccin]
    rfl

/-- What is attached changes no flag. -/
theorem slotFlags_of_attached {a : Attached} (hptx : (tx.attach a).intoPrivTx = .ok ptx)
    (hw : ptx.setWitness perm sigs = .ok w) : SlotFlags tx w := by
  rw [intoPrivTx_attach] at hptx
  rw [← Except.ok.inj hptx] at hw
  have hattached := slotFlags_of_written hw
  exact ⟨hattached.room, hattached.inotes, hattached.onotes, hattached.pairs, hattached.config⟩

namespace SlotFlags

variable (h : SlotFlags tx w)

include h

theorem contributes_bool (i : Fin NOTE_BATCH) :
    IsBool (and (w.onotesIsactive i) (not (w.isNotePairRjct i))) := by
  rw [h.onotes i, h.pairs i]
  exact isBool_and (isBool_boolTarget _) (isBool_not (isBool_boolTarget _))

/-- An output slot that is active and no reject pair is one of the output notes; the first of them
is in the slot after the rejected notes. -/
theorem isSpendReq_iff : w.isSpendReq = 1 ↔ tx.Spends := by
  have hroom := h.room
  refine (TxCircuitTargets.orAll_eq_one h.contributes_bool).2.trans ?_
  rw [BuiltSpendTx.Spends, ← List.length_pos_iff]
  constructor
  · rintro ⟨i, hi⟩
    rw [and_eq_one (by rw [h.onotes i]; exact isBool_boolTarget _), h.onotes i, h.pairs i,
      boolTarget_eq_one, decide_eq_true_iff] at hi
    obtain ⟨hactive, hpair⟩ := hi
    have hfirst : ¬ i.val < tx.rejectedInotes.length := by
      intro hlt
      rw [boolTarget, decide_eq_true hlt, if_pos rfl, not_one] at hpair
      exact zero_ne_one hpair
    omega
  · intro hpos
    refine ⟨⟨tx.rejectedInotes.length, by omega⟩, ?_⟩
    have hactive : w.onotesIsactive ⟨tx.rejectedInotes.length, by omega⟩ = 1 := by
      rw [h.onotes, boolTarget_eq_one, decide_eq_true_iff]
      exact Nat.lt_add_of_pos_right hpos
    have hpair : w.isNotePairRjct ⟨tx.rejectedInotes.length, by omega⟩ = 0 := by
      rw [h.pairs, decide_eq_false (Nat.lt_irrefl _)]
      rfl
    rw [hactive, hpair, not_zero]
    exact one_mul 1

/-- An input slot is active when there are input or rejected notes. -/
theorem hasInotes_iff :
    orAll w.inotesIsactive = 1 ↔ tx.inotes ≠ [] ∨ tx.rejectedInotes ≠ [] := by
  have hroom := h.room
  refine (TxCircuitTargets.orAll_eq_one fun i => by
    rw [h.inotes i]
    exact isBool_boolTarget _).2.trans ?_
  rw [← List.length_pos_iff, ← List.length_pos_iff]
  constructor
  · rintro ⟨i, hi⟩
    rw [h.inotes i, boolTarget_eq_one, decide_eq_true_iff] at hi
    omega
  · intro hpos
    refine ⟨⟨0, by decide⟩, ?_⟩
    rw [h.inotes, boolTarget_eq_one, decide_eq_true_iff]
    show 0 < tx.rejectedInotes.length + tx.inotes.length
    omega

theorem checkConsumeSig_iff : w.checkConsumeSig = 1 ↔ tx.Consumes := by
  have hspend : IsBool w.isSpendReq := (TxCircuitTargets.orAll_eq_one h.contributes_bool).1
  have hin := (TxCircuitTargets.orAll_eq_one (fun i => by
    rw [h.inotes i]
    exact isBool_boolTarget _ : ∀ i, IsBool (w.inotesIsactive i))).1
  have hnot : Circuit.not w.isSpendReq = 1 ↔ tx.onotes = [] := by
    rw [Circuit.not, sub_eq_self]
    rcases isBool_iff.mp hspend with hzero | hone
    · refine iff_of_true hzero (not_not.mp fun hspends => ?_)
      exact zero_ne_one (hzero.symm.trans (h.isSpendReq_iff.mpr hspends))
    · refine iff_of_false (fun hzero => zero_ne_one (hzero.symm.trans hone)) ?_
      exact h.isSpendReq_iff.mp hone
  rw [TxCircuitTargets.checkConsumeSig, and_eq_one (isBool_and hin (isBool_not hspend)),
    and_eq_one hin, h.hasInotes_iff, hnot, h.config, boolTarget_eq_one, BuiltSpendTx.Consumes, and_assoc]

/-- Everything but `required_signatures` agrees with the circuit, and it does unless the
transaction only rejects. -/
theorem signaturesMatch_iff (schnorrSign : Scalar → HashOut → Signature) :
    tx.SignaturesMatch schnorrSign w ↔ ¬ tx.OnlyRejects := by
  constructor
  · intro hmatch hrejects
    have hconsumes : tx.Consumes := ⟨.inr hrejects.1, hrejects.2.2⟩
    have hrequired := hmatch.consume.mpr (h.checkConsumeSig_iff.mpr hconsumes)
    exact (consumes_iff.mp hrequired).2 hrejects
  · intro hrejects
    exact {
      spend := spends_iff.trans h.isSpendReq_iff.symm
      consume := consumes_iff.trans
        ((and_iff_left hrejects).trans h.checkConsumeSig_iff.symm)
      spend_refused := fun sk => (spend_refused_iff sk).trans (not_congr h.isSpendReq_iff.symm)
      consume_refused := fun sk =>
        (consume_refused_iff sk).trans (not_congr h.checkConsumeSig_iff.symm)
      spend_signed := fun sk pk hkey hsk => (spend_signed_iff hkey hsk).trans h.isSpendReq_iff.symm
      consume_signed := fun sk pk hkey hsk =>
        (consume_signed_iff hkey hsk).trans h.checkConsumeSig_iff.symm }

end SlotFlags

end Slots

/-- The required signatures are those the circuit checks on a witness of the transaction, and the
others are refused, unless it only rejects notes under the account's own consume key. -/
theorem signatures_match_iff (perm : State → State) (schnorrSign : Scalar → HashOut → Signature)
    (tx : BuiltSpendTx) (a : Attached) (sigs : TxSignatureTargets) {ptx : BuiltPrivTx}
    {w : TxCircuitTargets} (hptx : (tx.attach a).intoPrivTx = .ok ptx)
    (hw : ptx.setWitness perm sigs = .ok w) :
    tx.SignaturesMatch schnorrSign w ↔ ¬ tx.OnlyRejects :=
  (slotFlags_of_attached hptx hw).signaturesMatch_iff schnorrSign

/-- The signatures of a payment of nothing. -/
theorem signatures_match_payment : ∃ acc b₀ b tx a, acc.ast.Reachable id ∧
    SpendTxBuilder.new acc 1 = .ok b₀ ∧ b₀.calls id (payments [0]) = .ok b ∧
    b.build id = .ok tx ∧ tx.requiredSignatures.spend = true ∧
    ∀ sigs, ∃ ptx w, (tx.attach a).intoPrivTx = .ok ptx ∧ ptx.setWitness id sigs = .ok w ∧
      ∀ schnorrSign, tx.SignaturesMatch schnorrSign w := by
  obtain ⟨acc, b₀, b, tx, t₀, t, ops, a, hast, -, hnew, hcalls, hbuild, htree, hrun, hproved⟩ :=
    payments_setting id Nat.one_pos (by decide)
  obtain ⟨t₁, hnew₁, hempty⟩ := new_represents (hashOutput id) stateTree_pos
  obtain rfl := Except.ok.inj (htree.symm.trans hnew₁)
  obtain ⟨ht, hlen⟩ := run_represents (hashOutput_lawful id) stateTree_pos hempty (Nat.zero_le _) hrun
  have hb : Grown id acc 1 ([] ++ payments [0]) b := (grown_new hnew).calls hcalls
  have htx := (build_eq_ok hbuild).attach a
  have houtputs : tx.onotes ≠ [] := by
    intro hnil
    have hcount := hb.outputs
    rw [← htx.onotes, show (tx.attach a).onotes = [] from hnil] at hcount
    exact absurd hcount (by decide)
  have hfits : Fits ([] ++ payments [0]) :=
    fits_single (.addOutputNote .default 0 0) (fun _ => 0) fun _ => 0
  refine ⟨acc, b₀, b, tx, a, hast, hnew, hcalls, hbuild, spends_iff.mpr houtputs, fun sigs => ?_⟩
  obtain ⟨w, -, hw, -⟩ :=
    hb.written hast htx ht hlen hproved.attach ((hb.checked_iff htx).mpr hfits) sigs
  refine ⟨_, w, intoPrivTx_attach tx a, hw, fun schnorrSign => ?_⟩
  exact (signatures_match_iff id schnorrSign tx a sigs (intoPrivTx_attach tx a) hw).mpr
    fun hrejects => houtputs hrejects.2.2.1

/-- One note of nothing is rejected. -/
def rejection (note : StandardNote) : List SpendCall :=
  [.addRejectedNote note 1, .fillDinotes fun _ => 0, .fillDonotes fun _ => 0]

/-- A rejection under the account's own consume key is built and written, and the circuit checks
a consume signature that `required_signatures` does not ask for. -/
theorem rejection_unsigned : ∃ acc note b₀ b tx a, acc.ast.Reachable id ∧
    acc.consumeAuth.Regular ∧ SpendTxBuilder.new acc 1 = .ok b₀ ∧
    b₀.calls id (rejection note) = .ok b ∧ b.build id = .ok tx ∧
    ∀ sigs, ∃ ptx w, (tx.attach a).intoPrivTx = .ok ptx ∧ ptx.setWitness id sigs = .ok w ∧
      tx.requiredSignatures.consume = false ∧ w.checkConsumeSig = 1 ∧
      ∀ schnorrSign, ¬ tx.SignaturesMatch schnorrSign w := by
  obtain ⟨ast, hast⟩ := AccountStateTree.new_ok id
  let acc : StandardAccount := ⟨0, 0, 1, .default, ⟨true, some 0⟩, ast⟩
  let note : StandardNote := ⟨0, 1, 0, acc.address id, .default⟩
  let b : SpendTxBuilder := ⟨acc, 1, [], [], [(note, 1)],
    some ((List.range 6).map fun _ => 0), some ((List.range 6).map fun _ => 0)⟩
  have hnew : SpendTxBuilder.new acc 1 = .ok ⟨acc, 1, [], [], [], none, none⟩ := if_neg one_ne_zero
  have hadd : SpendTxBuilder.addRejectedNote id ⟨acc, 1, [], [], [], none, none⟩ note 1 =
      .ok ⟨acc, 1, [], [], [(note, 1)], none, none⟩ := by
    exact (if_neg (show ¬ 0 + 1 + max 0 0 > NOTE_BATCH by decide)).trans
      ((if_neg (not_not.mpr rfl)).trans (if_neg (not_not.mpr rfl)))
  have hcalls : SpendTxBuilder.calls id ⟨acc, 1, [], [], [], none, none⟩ (rejection note) = .ok b :=
    bind_eq_ok.mpr ⟨_, hadd, rfl⟩
  have hreach : acc.ast.Reachable id := .new hast
  have hb : Grown id acc 1 ([] ++ rejection note) b := (grown_new hnew).calls hcalls
  have hm := AccountStateTree.new_eq_ok hast
  have hbalance : b.balance = 0 := by
    rw [SpendTxBuilder.balance, amountOrNext]
    show ((AccountStateTree.amountFor ast 1).getD _).2.toNat = 0
    rw [new_amountFor hast one_ne_zero]
    rfl
  have hinputs : b.inputs = 0 := rfl
  have houtputs : b.outputs = 0 := rfl
  have hsafe : Safe b := by
    refine ⟨by omega, by omega, fun _ => by omega, fun _ => ⟨one_ne_zero, .inr ?_⟩,
      fun _ _ _ => Option.some_ne_none _, fun _ _ n hn => ?_⟩
    · show ast.tree.numLeaves < _
      rw [hm.numLeaves, List.length_singleton]
      decide
    · rw [List.mem_singleton.mp hn]
      exact (show 1 < ORDER by decide)
  have hcovered : b.Covered := by
    rw [SpendTxBuilder.Covered]
    omega
  obtain ⟨tx, hbuild⟩ := hb.build_ok hm (fun h => absurd h.2.2 (List.cons_ne_nil _ _)) hsafe hcovered
    ⟨Option.some_ne_none _, Option.some_ne_none _⟩
  have htx := build_eq_ok hbuild
  obtain ⟨c, hc⟩ := (commitment_iff hreach.root).mpr fun _ => Option.some_ne_none _
  obtain ⟨t₀, htree, hempty⟩ := new_represents (hashOutput id) stateTree_pos
  obtain ⟨t, hrun, ht⟩ := run_insert (hashOutput_lawful id) hempty [c, note.commitment id]
    (show 0 + 2 ≤ 2 ^ STATE_TREE_DEPTH by decide)
  have hlen : ([c, note.commitment id] : List HashOut).length ≤ 2 ^ STATE_TREE_DEPTH :=
    show 2 ≤ 2 ^ STATE_TREE_DEPTH by decide
  have hproof := merkleProof_represents ht stateTree_pos hlen
  let a : Attached := {
    attached (proofOf (hashOutput id) STATE_TREE_DEPTH [c, note.commitment id] 0) with
    rejectedProofs := [proofOf (hashOutput id) STATE_TREE_DEPTH [c, note.commitment id] 1] }
  have hproved : ProvedIn id t tx a := by
    refine {
      account := ⟨0, c, ?_, ?_, hproof 0⟩
      rejected := ?_
      inotes := ?_
      subpool := List.length_replicate
      signed := ⟨fun _ => Option.some_ne_none _, fun _ => Option.some_ne_none _,
        fun _ => Option.some_ne_none _⟩ }
    · rw [htx.account]
      exact hc
    · rw [ht.leaves]
      rfl
    · rw [htx.rejected_inotes]
      refine .cons ⟨?_, hproof 1⟩ .nil
      rw [ht.leaves]
      rfl
    · rw [htx.inotes]
      exact .nil
  have hfits : Fits ([] ++ rejection note) :=
    fits_single (.addRejectedNote note 1) (fun _ => 0) fun _ => 0
  have hrejects : tx.OnlyRejects := by
    rw [BuiltSpendTx.OnlyRejects, htx.rejected_inotes, htx.inotes, htx.onotes, htx.account]
    exact ⟨List.cons_ne_nil _ _, rfl, rfl, rfl⟩
  refine ⟨acc, note, _, b, tx, a, hreach, ⟨fun _ => Option.some_ne_none _, fun h => absurd h.symm
    Bool.false_ne_true⟩, hnew, hcalls, hbuild, fun sigs => ?_⟩
  obtain ⟨w, -, hw, -⟩ := hb.written hreach (htx.attach a) ht hlen hproved.attach
    ((hb.checked_iff (htx.attach a)).mpr hfits) sigs
  have hflags : SlotFlags tx w := slotFlags_of_attached (intoPrivTx_attach tx a) hw
  refine ⟨_, w, intoPrivTx_attach tx a, hw, ?_, ?_, fun schnorrSign hmatch => ?_⟩
  · exact Bool.eq_false_iff.mpr fun h => (consumes_iff.mp h).2 hrejects
  · exact hflags.checkConsumeSig_iff.mpr ⟨.inr hrejects.1, hrejects.2.2⟩
  · exact (hflags.signaturesMatch_iff schnorrSign).mp hmatch hrejects

end Doxa.Client.Spend
