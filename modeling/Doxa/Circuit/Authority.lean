import Doxa.Circuit.Transfer

/-!
# Who may change an account

The kind of a private transaction is three boolean wires, and the rules of each kind are
conditional on one of them. That the kinds exclude each other is said in a comment only: a
prover may set none of the flags, or several, and may consume and create notes in a
transaction of any kind. What the conditions do give is collected in `kind_discipline_iff`.

Which signatures are needed is folded over the note slots. A prover who flags a slot as a
reject pair has to show that its output returns the input to the sender, so an active output
that is no such mirror forces the spend signature. The converse choice is free: a mirror that
is not flagged counts as a spend, and the consume signature is then not asked for.
-/

namespace Doxa.Circuit

namespace TxCircuitTargets

variable {perm : State → State} {t : TxCircuitTargets}

/-! ## Flags -/

/-- The folded `or` is one exactly when some flag is. -/
theorem orFold_eq_one (flags : List F) {acc : F} (hacc : IsBool acc)
    (hflags : ∀ x ∈ flags, IsBool x) :
    IsBool (flags.foldl (fun acc sel => or sel acc) acc) ∧
      (flags.foldl (fun acc sel => or sel acc) acc = 1 ↔ acc = 1 ∨ 1 ∈ flags) := by
  induction flags generalizing acc with
  | nil => exact ⟨hacc, by simp⟩
  | cons x flags ih =>
      have hx := hflags x List.mem_cons_self
      obtain ⟨hbool, hone⟩ := ih (isBool_or hx hacc) fun y hy => hflags y (List.mem_cons_of_mem x hy)
      refine ⟨hbool, hone.trans ?_⟩
      rw [or_eq_one hx, List.mem_cons, eq_comm (a := (1 : F)) (b := x)]
      tauto

theorem orAll_eq_one {f : Fin NOTE_BATCH → F} (hf : ∀ i, IsBool (f i)) :
    IsBool (orAll f) ∧ (orAll f = 1 ↔ ∃ i, f i = 1) := by
  have htail : (List.ofFn f).tail = List.ofFn fun i : Fin 6 => f i.succ := by
    rw [List.ofFn_succ, List.tail_cons]
  have hmem : ∀ x ∈ (List.ofFn f).tail, IsBool x := by
    intro x hx
    rw [htail, List.mem_ofFn] at hx
    obtain ⟨i, rfl⟩ := hx
    exact hf i.succ
  obtain ⟨hbool, hone⟩ := orFold_eq_one _ (hf 0) hmem
  refine ⟨hbool, hone.trans ?_⟩
  rw [htail, List.mem_ofFn]
  exact (Fin.exists_fin_succ (P := fun i => f i = 1)).symm

/-! ## Kinds -/

/-- The kinds of a private transaction. -/
inductive TxKind
  | freshAcc
  | updateAuth
  | privTx
  deriving DecidableEq

/-- The flag of a kind. -/
def kindFlag (t : TxCircuitTargets) : TxKind → F
  | .freshAcc => t.isFreshAcc
  | .updateAuth => t.isUpdateAuth
  | .privTx => t.isPrivTx

/-- The transaction has one kind, and does only what that kind may do. -/
structure KindDiscipline (perm : State → State) (t : TxCircuitTargets) : Prop where
  one_kind : ∃! k, t.kindFlag k = 1
  ast_root : t.accout.accAstRoot ≠ t.accin.accAstRoot → t.isPrivTx = 1
  keys : t.accout.spendAuth ≠ t.accin.spendAuth ∨ t.accout.consumeAuth ≠ t.accin.consumeAuth →
    t.isFreshAcc = 1 ∨ t.isUpdateAuth = 1
  notes : ∀ i, t.inotesIsactive i = 1 ∨ t.onotesIsactive i = 1 → t.isPrivTx = 1
  membership : ¬ AssertFreshAccount t.accin 1 →
    t.accinActMerkle.root perm (t.accinComm perm) = t.root

theorem Satisfied.ast_root_kept (h : t.Satisfied perm)
    (hast : t.accout.accAstRoot ≠ t.accin.accAstRoot) : t.isPrivTx = 1 := by
  rcases isBool_iff.mp h.allocated.is_priv_tx with hpriv | hpriv
  · have hroot := h.invariants.ast_root
    rw [hpriv, not_zero, condHashEq_one] at hroot
    exact absurd hroot hast
  · exact hpriv

/-- The keys of the account are frozen in a private transaction. -/
theorem Satisfied.keys_kept (h : t.Satisfied perm) (hpriv : t.isPrivTx = 1) :
    t.accout.spendAuth = t.accin.spendAuth ∧ t.accout.consumeAuth = t.accin.consumeAuth := by
  have hspend := h.invariants.spend_auth
  have hpk := h.invariants.consume_pk
  have hconfig := h.invariants.consume_config
  rw [hpriv] at hspend hpk hconfig
  have hpk' : t.accout.consumeAuth.pk = t.accin.consumeAuth.pk :=
    funext fun i => condEq_one.mp (hpk i)
  have hconfig' : t.accout.consumeAuth.config = t.accin.consumeAuth.config :=
    condEq_one.mp hconfig
  refine ⟨funext fun i => condEq_one.mp (hspend i), ?_⟩
  cases hout : t.accout.consumeAuth with
  | mk config pk =>
    cases hin : t.accin.consumeAuth with
    | mk config' pk' =>
      rw [hout, hin] at hpk' hconfig'
      rw [show config = config' from hconfig', show pk = pk' from hpk']

/-- An account that is not in the fresh state is a member of the state tree. -/
theorem Satisfied.accin_member (h : t.Satisfied perm) (hreal : t.notFakeTx = 1)
    (hfresh : ¬ AssertFreshAccount t.accin 1) :
    t.accinActMerkle.root perm (t.accinComm perm) = t.root := by
  rcases isBool_iff.mp h.allocated.is_fresh_acc with hflag | hflag
  · have hact := h.act.2
    have hselector : and (not t.isFreshAcc) t.notFakeTx = 1 := by
      rw [hflag, hreal, not_zero, and, mul_one]
    rw [hselector, condHashEq_one] at hact
    exact hact
  · have hdefault := h.fresh
    rw [hflag] at hdefault
    exact absurd hdefault hfresh

/-- In every satisfying assignment of a real transaction the asset root changes in private
transactions only and the account is fresh or a member of the tree. The whole discipline holds
exactly when one flag is set and, where it is not `is_priv_tx`, no note slot is active. -/
theorem kind_discipline_iff (h : t.Satisfied perm) (hreal : t.notFakeTx = 1) :
    ((t.accout.accAstRoot ≠ t.accin.accAstRoot → t.isPrivTx = 1) ∧
      (¬ AssertFreshAccount t.accin 1 →
        t.accinActMerkle.root perm (t.accinComm perm) = t.root)) ∧
    (t.KindDiscipline perm ↔
      (∃! k, t.kindFlag k = 1) ∧
        (t.isPrivTx = 0 → ∀ i, t.inotesIsactive i = 0 ∧ t.onotesIsactive i = 0)) := by
  refine ⟨⟨h.ast_root_kept, h.accin_member hreal⟩, ?_, ?_⟩
  · intro hkind
    refine ⟨hkind.one_kind, fun hpriv i => ?_⟩
    have hnone : ¬ (t.inotesIsactive i = 1 ∨ t.onotesIsactive i = 1) := by
      intro hactive
      rw [hkind.notes i hactive] at hpriv
      exact one_ne_zero hpriv
    rw [not_or] at hnone
    exact ⟨(isBool_iff.mp (h.allocated.inotes_isactive i)).resolve_right hnone.1,
      (isBool_iff.mp (h.allocated.onotes_isactive i)).resolve_right hnone.2⟩
  · rintro ⟨hone, hnotes⟩
    refine ⟨hone, h.ast_root_kept, ?_, ?_, h.accin_member hreal⟩
    · intro hkeys
      obtain ⟨k, hk, -⟩ := hone
      cases k with
      | freshAcc => exact .inl hk
      | updateAuth => exact .inr hk
      | privTx =>
        obtain ⟨hspend, hconsume⟩ := h.keys_kept hk
        exact absurd hkeys (not_or.mpr ⟨not_not.mpr hspend, not_not.mpr hconsume⟩)
    · intro i hactive
      rcases isBool_iff.mp h.allocated.is_priv_tx with hpriv | hpriv
      · obtain ⟨hin, hout⟩ := hnotes hpriv i
        rw [hin, hout] at hactive
        exact absurd hactive (not_or.mpr ⟨zero_ne_one, zero_ne_one⟩)
      · exact hpriv

/-! ## Signatures -/

/-- The output note returns the input note to its sender. -/
structure ReturnsToSender (inote onote : StandardNoteTarget) : Prop where
  identifier : onote.identifier = inote.identifier
  amount : onote.amount = inote.amount
  asset_id : onote.assetId = inote.assetId
  recipient : onote.recipient = inote.sender
  sender : onote.sender = inote.sender

/-- The output note of slot `i` is the mirror of an active input note. -/
def Mirrors (t : TxCircuitTargets) (i : Fin NOTE_BATCH) : Prop :=
  t.inotesIsactive i = 1 ∧ ReturnsToSender (t.inotes i) (t.onotes i)

theorem address_eq {a b : AccountAddressTarget} (hsubpool : a.subpoolId = b.subpoolId)
    (hid : ∀ j, a.publicIdentifier j = b.publicIdentifier j) : b = a := by
  cases a with
  | mk subpool identifier =>
    cases b with
    | mk subpool' identifier' =>
      rw [show subpool = subpool' from hsubpool,
        show identifier = identifier' from funext hid]

/-- A flagged pair is a mirror. -/
theorem Satisfied.mirrors_of_rjct (h : t.Satisfied perm) {i : Fin NOTE_BATCH}
    (hrjct : t.isNotePairRjct i = 1) : t.Mirrors i := by
  obtain ⟨hactive, hid, hamount, hasset, hrs, hri, hss, hsi⟩ := h.reject i
  rw [hrjct] at hactive hasset hrs hss
  simp only [hrjct, condEq_one] at hid hamount hri hsi
  refine ⟨condEq_one.mp hactive, (funext hid).symm, (funext hamount).symm,
    (condEq_one.mp hasset).symm, ?_, ?_⟩
  · exact address_eq (condEq_one.mp hrs) hri
  · exact address_eq (condEq_one.mp hss) hsi

theorem Satisfied.contributes_bool (h : t.Satisfied perm) (i : Fin NOTE_BATCH) :
    IsBool (and (t.onotesIsactive i) (not (t.isNotePairRjct i))) :=
  isBool_and (h.allocated.onotes_isactive i) (isBool_not (h.allocated.is_note_pair_rjct i))

/-- The spend signature is required exactly when some active output is not flagged. -/
theorem Satisfied.isSpendReq_eq_one (h : t.Satisfied perm) :
    t.isSpendReq = 1 ↔ ∃ i, t.onotesIsactive i = 1 ∧ t.isNotePairRjct i = 0 := by
  refine (orAll_eq_one h.contributes_bool).2.trans (exists_congr fun i => ?_)
  rw [and_eq_one (h.allocated.onotes_isactive i)]
  refine and_congr_right fun _ => ?_
  rw [not, sub_eq_self]

theorem Satisfied.checkConsumeSig_eq_one (h : t.Satisfied perm)
    (hinote : ∃ i, t.inotesIsactive i = 1) (hspend : t.isSpendReq ≠ 1)
    (hconfig : t.accin.consumeAuth.config = 1) : t.checkConsumeSig = 1 := by
  have hhas := (orAll_eq_one h.allocated.inotes_isactive).2.mpr hinote
  have hzero := (isBool_iff.mp (orAll_eq_one h.contributes_bool).1).resolve_right hspend
  have hreq : t.isSpendReq = 0 := hzero
  rw [checkConsumeSig, hhas, hreq, hconfig, not_zero, and, and, mul_one, mul_one]

/-- Authorization, when a gadget whose condition is one gives a valid signature. In a
transaction that consumes notes and creates nothing but mirrors, the consume signature is
valid when every active output is flagged, and the spend signature when one is not. -/
theorem spend_authorization {valid : SchnorrTargets → HashOut → PubkeyTarget → Prop}
    (hgadget : ∀ s message pubkey, s.Satisfied perm message pubkey 1 → valid s message pubkey)
    (h : t.Satisfied perm) (hreal : t.notFakeTx = 1) :
    valid t.approval (t.txHash perm) t.approvalKey ∧
    ((∃ i, t.onotesIsactive i = 1 ∧ ¬ t.Mirrors i) →
      valid t.spend (t.txHash perm) t.accin.spendAuth) ∧
    ((∃ i, t.inotesIsactive i = 1) → (∀ i, t.onotesIsactive i = 1 → t.Mirrors i) →
      t.accin.consumeAuth.config = 1 →
      ((∀ i, t.onotesIsactive i = 1 → t.isNotePairRjct i = 1) →
        valid t.consume (t.txHash perm) t.accin.consumeAuth.pk) ∧
      ((∃ i, t.onotesIsactive i = 1 ∧ t.isNotePairRjct i = 0) →
        valid t.spend (t.txHash perm) t.accin.spendAuth)) := by
  have hspend : (∃ i, t.onotesIsactive i = 1 ∧ t.isNotePairRjct i = 0) →
      valid t.spend (t.txHash perm) t.accin.spendAuth := by
    intro hunflagged
    have hsig := h.signatures.spend
    rw [h.isSpendReq_eq_one.mpr hunflagged] at hsig
    exact hgadget _ _ _ hsig
  refine ⟨?_, ?_, ?_⟩
  · have hsig := h.signatures.approval
    rw [hreal] at hsig
    exact hgadget _ _ _ hsig
  · rintro ⟨i, hactive, hmirror⟩
    refine hspend ⟨i, hactive, ?_⟩
    refine (isBool_iff.mp (h.allocated.is_note_pair_rjct i)).resolve_right ?_
    intro hrjct
    exact hmirror (h.mirrors_of_rjct hrjct)
  · intro hinote _ hconfig
    refine ⟨fun hflagged => ?_, hspend⟩
    have hreq : t.isSpendReq ≠ 1 := by
      intro hreq
      obtain ⟨i, hactive, hzero⟩ := h.isSpendReq_eq_one.mp hreq
      rw [hflagged i hactive] at hzero
      exact one_ne_zero hzero
    have hsig := h.signatures.consume
    rw [h.checkConsumeSig_eq_one hinote hreq hconfig] at hsig
    exact hgadget _ _ _ hsig

/-! ## Other flags, keys and signatures -/

/-- The assignment with other kinds than fresh. -/
def reflag (t : TxCircuitTargets) (isUpdateAuth isPrivTx : F) : TxCircuitTargets :=
  { t with isUpdateAuth := isUpdateAuth, isPrivTx := isPrivTx }

/-- Where the account keeps its asset root and its keys, the kind is free. -/
theorem Satisfied.reflag (h : t.Satisfied perm) {isUpdateAuth isPrivTx : F}
    (hupdate : IsBool isUpdateAuth) (hpriv : IsBool isPrivTx)
    (hast : t.accout.accAstRoot = t.accin.accAstRoot)
    (hspend : t.accout.spendAuth = t.accin.spendAuth)
    (hconsume : t.accout.consumeAuth = t.accin.consumeAuth) :
    (t.reflag isUpdateAuth isPrivTx).Satisfied perm where
  allocated := {
    not_fake_tx := h.allocated.not_fake_tx
    is_fresh_acc := h.allocated.is_fresh_acc
    is_update_auth := hupdate
    is_priv_tx := hpriv
    asset_exists_in_accin := h.allocated.asset_exists_in_accin
    asset_exists_in_accout := h.allocated.asset_exists_in_accout
    accin := h.allocated.accin
    accout := h.allocated.accout
    inotes_isactive := h.allocated.inotes_isactive
    onotes_isactive := h.allocated.onotes_isactive
    is_note_pair_rjct := h.allocated.is_note_pair_rjct }
  fresh := h.fresh
  invariants := {
    private_identifier := h.invariants.private_identifier
    subpool_id := h.invariants.subpool_id
    nonce := h.invariants.nonce
    ast_root := by
      rw [show (t.reflag isUpdateAuth isPrivTx).accout.accAstRoot = t.accin.accAstRoot from hast]
      exact condHashEq_self _ _
    spend_auth := by
      rw [show (t.reflag isUpdateAuth isPrivTx).accout.spendAuth = t.accin.spendAuth from hspend]
      exact fun _ => condEq_self _ _
    consume_pk := by
      rw [show (t.reflag isUpdateAuth isPrivTx).accout.consumeAuth = t.accin.consumeAuth
        from hconsume]
      exact fun _ => condEq_self _ _
    consume_config := by
      rw [show (t.reflag isUpdateAuth isPrivTx).accout.consumeAuth = t.accin.consumeAuth
        from hconsume]
      exact condEq_self _ _ }
  act := h.act
  ast := h.ast
  reject := h.reject
  asset_id := h.asset_id
  inotes := {
    membership := h.inotes.membership
    recipient := h.inotes.recipient
    recipient_subpool := h.inotes.recipient_subpool }
  balance := {
    lhs := h.balance.lhs
    rhs := h.balance.rhs
    equal := h.balance.equal }
  subpool := h.subpool
  signatures := {
    spend := h.signatures.spend
    consume := h.signatures.consume
    approval := h.signatures.approval }

/-- The account before and after with other consume keys, in another state tree; the signatures
are forged anew. -/
def redelegate (perm : State → State) (t : TxCircuitTargets) (consumeAuth : ConsumeAuthTarget)
    (root : HashOut) (paths : Fin NOTE_BATCH → MerkleRootTarget STATE_TREE_DEPTH) :
    TxCircuitTargets :=
  { t with
    accin := { t.accin with consumeAuth := consumeAuth }
    accout := { t.accout with consumeAuth := consumeAuth }
    root := root
    inotesNctMerkle := paths }.fillSignatures perm

theorem Satisfied.redelegate (h : t.Satisfied perm) (hfresh : t.isFreshAcc = 0)
    {consumeAuth : ConsumeAuthTarget} {root : HashOut}
    {paths : Fin NOTE_BATCH → MerkleRootTarget STATE_TREE_DEPTH}
    (hconfig : IsBool consumeAuth.config)
    (hact : t.accinActMerkle.ConditionalVerify perm
      (deriveAccountCommitment perm { t.accin with consumeAuth := consumeAuth }) root
      (and (not t.isFreshAcc) t.notFakeTx))
    (hinotes : ∀ i, (paths i).ConditionalVerify perm (t.inotesComm perm i) root
      (t.inotesIsactive i)) :
    (t.redelegate perm consumeAuth root paths).Satisfied perm where
  allocated := {
    not_fake_tx := h.allocated.not_fake_tx
    is_fresh_acc := h.allocated.is_fresh_acc
    is_update_auth := h.allocated.is_update_auth
    is_priv_tx := h.allocated.is_priv_tx
    asset_exists_in_accin := h.allocated.asset_exists_in_accin
    asset_exists_in_accout := h.allocated.asset_exists_in_accout
    accin := hconfig
    accout := hconfig
    inotes_isactive := h.allocated.inotes_isactive
    onotes_isactive := h.allocated.onotes_isactive
    is_note_pair_rjct := h.allocated.is_note_pair_rjct }
  fresh := by
    change AssertFreshAccount _ t.isFreshAcc
    rw [hfresh]
    exact ⟨condHashEq_zero _ _, condEq_zero _ _, fun _ => condEq_zero _ _, condEq_zero _ _,
      fun _ => condEq_zero _ _⟩
  invariants := {
    private_identifier := h.invariants.private_identifier
    subpool_id := h.invariants.subpool_id
    nonce := h.invariants.nonce
    ast_root := h.invariants.ast_root
    spend_auth := h.invariants.spend_auth
    consume_pk := fun _ => condEq_self _ _
    consume_config := condEq_self _ _ }
  act := hact
  ast := h.ast
  reject := h.reject
  asset_id := h.asset_id
  inotes := {
    membership := hinotes
    recipient := h.inotes.recipient
    recipient_subpool := h.inotes.recipient_subpool }
  balance := {
    lhs := h.balance.lhs
    rhs := h.balance.rhs
    equal := h.balance.equal }
  subpool := h.subpool
  signatures := fillSignatures_signatures perm _

/-- The assignment with another consume signature. -/
def resignConsume (t : TxCircuitTargets) (consume : SchnorrTargets) : TxCircuitTargets :=
  { t with consume := consume }

theorem Satisfied.resignConsume (h : t.Satisfied perm) {consume : SchnorrTargets}
    (hconsume : consume.Satisfied perm (t.txHash perm) t.accin.consumeAuth.pk t.checkConsumeSig) :
    (t.resignConsume consume).Satisfied perm where
  allocated := {
    not_fake_tx := h.allocated.not_fake_tx
    is_fresh_acc := h.allocated.is_fresh_acc
    is_update_auth := h.allocated.is_update_auth
    is_priv_tx := h.allocated.is_priv_tx
    asset_exists_in_accin := h.allocated.asset_exists_in_accin
    asset_exists_in_accout := h.allocated.asset_exists_in_accout
    accin := h.allocated.accin
    accout := h.allocated.accout
    inotes_isactive := h.allocated.inotes_isactive
    onotes_isactive := h.allocated.onotes_isactive
    is_note_pair_rjct := h.allocated.is_note_pair_rjct }
  fresh := h.fresh
  invariants := h.invariants
  act := h.act
  ast := h.ast
  reject := h.reject
  asset_id := h.asset_id
  inotes := {
    membership := h.inotes.membership
    recipient := h.inotes.recipient
    recipient_subpool := h.inotes.recipient_subpool }
  balance := {
    lhs := h.balance.lhs
    rhs := h.balance.rhs
    equal := h.balance.equal }
  subpool := h.subpool
  signatures := {
    spend := h.signatures.spend
    consume := hconsume
    approval := h.signatures.approval }

end TxCircuitTargets

/-! ## A transaction of no kind -/

/-- The account keeps its ten units, and a note of five goes in and out again. -/
def passThrough : Transfer :=
  { payment with
    accoutAmt := ![10, 0, 0, 0, 0, 0, 0, 0]
    onoteAmt := ![5, 0, 0, 0, 0, 0, 0, 0] }

theorem passThrough_valid : passThrough.Valid where
  not_fake_tx := isBool_iff.mpr (.inr rfl)
  exists_accin := isBool_iff.mpr (.inr rfl)
  exists_accout := isBool_iff.mpr (.inr rfl)
  inote_active := isBool_iff.mpr (.inr rfl)
  onote_active := isBool_iff.mpr (.inr rfl)
  absent_accin := payment_valid.absent_accin
  absent_accout := payment_valid.absent_accin
  lhs := payment_valid.lhs
  rhs := payment_valid.lhs
  equal := rfl

/-- A real transaction with no kind at all consumes and creates a note. -/
theorem transaction_of_no_kind : passThrough.notFakeTx = 1 ∧ ∀ perm : State → State,
    ((passThrough.targets perm).reflag 0 0).Satisfied perm ∧
      ((passThrough.targets perm).reflag 0 0).notFakeTx = 1 ∧
      (∀ k, ((passThrough.targets perm).reflag 0 0).kindFlag k = 0) ∧
      ((passThrough.targets perm).reflag 0 0).inotesIsactive 0 = 1 ∧
      ((passThrough.targets perm).reflag 0 0).onotesIsactive 0 = 1 ∧
      ¬ ((passThrough.targets perm).reflag 0 0).KindDiscipline perm := by
  refine ⟨rfl, fun perm => ?_⟩
  have hzero : IsBool 0 := isBool_iff.mpr (.inl rfl)
  have hflags : ∀ k, ((passThrough.targets perm).reflag 0 0).kindFlag k = 0 := by
    intro k
    cases k with
    | freshAcc => rfl
    | updateAuth => rfl
    | privTx => rfl
  refine ⟨(passThrough_valid.satisfied perm).reflag hzero hzero rfl rfl rfl, rfl, hflags, rfl, rfl,
    ?_⟩
  intro hkind
  obtain ⟨k, hk, -⟩ := hkind.one_kind
  rw [hflags k] at hk
  exact zero_ne_one hk

theorem payment_kind_discipline : (payment.targets id).notFakeTx = 1 ∧
    (payment.targets id).KindDiscipline id := by
  refine ⟨rfl, ?_⟩
  refine (TxCircuitTargets.kind_discipline_iff (payment_valid.satisfied id) rfl).2.mpr ⟨?_, ?_⟩
  · refine ⟨.privTx, rfl, ?_⟩
    intro k hk
    cases k with
    | freshAcc => exact absurd hk zero_ne_one
    | updateAuth => exact absurd hk zero_ne_one
    | privTx => rfl
  · intro hpriv
    exact absurd hpriv one_ne_zero

/-! ## A refund without the consume signature -/

section Refund

variable (perm : State → State) (message : HashOut) (pubkey : PubkeyTarget)

/-- With its condition off the gadget does not read the message. -/
theorem SchnorrTargets.Satisfied.idle {s : SchnorrTargets} {perm perm' : State → State}
    {message message' : HashOut} {pubkey : PubkeyTarget} {applyCheck : F}
    (h : s.Satisfied perm' message' pubkey applyCheck) : s.Satisfied perm message pubkey 0 where
  gates := h.gates
  chained := h.chained
  key_point := h.key_point
  start := h.start
  compress_r := h.compress_r
  compress_q := h.compress_q
  limbs := fun _ => condEq_zero _ _
  last_limb := zero_mul _

/-- A challenge limb that the message does not have. -/
def otherLimb : F := (forgedTargets perm message pubkey).eHash perm message pubkey 0 + 1

/-- Gates for the challenge whose limbs are all `otherLimb`. -/
def unsigned : SchnorrTargets :=
  forgedTargets (fun _ _ => otherLimb perm message pubkey) message pubkey

theorem unsigned_idle : (unsigned perm message pubkey).Satisfied perm message pubkey 0 :=
  (forgedTargets_satisfied _ message pubkey 0).idle

theorem unsigned_not_valid : ¬ (unsigned perm message pubkey).Satisfied perm message pubkey 1 := by
  intro h
  have hlimb : (unsigned perm message pubkey).reconstructed 0 =
      (unsigned perm message pubkey).eHash perm message pubkey 0 := condEq_one.mp (h.limbs 0)
  have hother : (unsigned perm message pubkey).reconstructed 0 = otherLimb perm message pubkey :=
    (forgedTargets_limbs (fun _ _ => otherLimb perm message pubkey) message pubkey).1 0
  have hcr : (unsigned perm message pubkey).cr = (forgedTargets perm message pubkey).cr :=
    Eq.trans (b := forgedCr) rfl rfl
  rw [hother, otherLimb, SchnorrTargets.eHash, SchnorrTargets.eHash, hcr, add_eq_left] at hlimb
  exact one_ne_zero hlimb

/-- The assignment with gates that sign nothing in place of the consume signature. -/
def TxCircuitTargets.withoutConsume (t : TxCircuitTargets) : TxCircuitTargets :=
  t.resignConsume (unsigned perm (t.txHash perm) t.accin.consumeAuth.pk)

theorem TxCircuitTargets.Satisfied.withoutConsume {t : TxCircuitTargets} {perm : State → State}
    (h : t.Satisfied perm) (hcheck : t.checkConsumeSig = 0) :
    (t.withoutConsume perm).Satisfied perm := by
  refine h.resignConsume ?_
  rw [hcheck]
  exact unsigned_idle perm (t.txHash perm) t.accin.consumeAuth.pk

/-- A real transaction consumes a note and creates nothing but mirrors, for an account that asks
for consume signatures, and the consume signature is not valid. -/
structure ConsumesUnsigned (t : TxCircuitTargets) : Prop where
  satisfied : t.Satisfied perm
  real : t.notFakeTx = 1
  consumes : ∃ i, t.inotesIsactive i = 1
  mirrors : ∀ i, t.onotesIsactive i = 1 → t.Mirrors i
  config : t.accin.consumeAuth.config = 1
  unsigned : ¬ t.consume.Satisfied perm (t.txHash perm) t.accin.consumeAuth.pk 1

theorem TxCircuitTargets.Satisfied.consumesUnsigned {t : TxCircuitTargets} {perm : State → State}
    (h : t.Satisfied perm) (hcheck : t.checkConsumeSig = 0) (hreal : t.notFakeTx = 1)
    (hconsumes : ∃ i, t.inotesIsactive i = 1)
    (hmirrors : ∀ i, t.onotesIsactive i = 1 → t.Mirrors i)
    (hconfig : t.accin.consumeAuth.config = 1) : ConsumesUnsigned perm (t.withoutConsume perm) where
  satisfied := h.withoutConsume hcheck
  real := hreal
  consumes := hconsumes
  mirrors := hmirrors
  config := hconfig
  unsigned := unsigned_not_valid perm (t.txHash perm) t.accin.consumeAuth.pk

/-- The account of the refund asks for a consume signature. -/
def delegatedAuth : ConsumeAuthTarget where
  config := 1
  pk := DEFAULT_ACC_COMM_CONSUME_PK_PLACEHOLDER

def delegatedComm : HashOut :=
  deriveAccountCommitment perm { passThrough.accin perm with consumeAuth := delegatedAuth }

/-- The note of five units goes back to its sender, in a pair that is not flagged. -/
def refund : TxCircuitTargets :=
  (passThrough.targets perm).redelegate perm delegatedAuth
    ((firstLeafPath STATE_TREE_DEPTH (passThrough.inoteComm perm)).root perm (delegatedComm perm))
    fun _ => secondLeafPath STATE_TREE_DEPTH (delegatedComm perm)

theorem refund_satisfied : (refund perm).Satisfied perm := by
  refine (passThrough_valid.satisfied perm).redelegate rfl (isBool_iff.mpr (.inr rfl)) ?_ ?_
  · exact MerkleRootTarget.verify_self perm (firstLeafPath_satisfied _ _) _ _
  · intro i
    refine ⟨secondLeafPath_satisfied _ _, ?_⟩
    by_cases hi : i = 0
    · subst hi
      have hroot := secondLeafPath_root perm STATE_TREE_DEPTH (by decide) (delegatedComm perm)
        (passThrough.inoteComm perm)
      change CondHashEq _ ((secondLeafPath STATE_TREE_DEPTH (delegatedComm perm)).root perm
        (passThrough.inoteComm perm)) _
      rw [hroot]
      exact condHashEq_self _ _
    · have hzero : (passThrough.targets perm).inotesIsactive i = 0 := if_neg hi
      rw [hzero]
      exact condHashEq_zero _ _

theorem refund_mirrors (i : Fin NOTE_BATCH) (hactive : (refund perm).onotesIsactive i = 1) :
    (refund perm).Mirrors i := by
  have hi : i = 0 := by
    by_contra hne
    have hzero : (refund perm).onotesIsactive i = 0 := if_neg hne
    rw [hzero] at hactive
    exact zero_ne_one hactive
  subst hi
  exact ⟨rfl, rfl, rfl, rfl, rfl, rfl⟩

theorem refund_checkConsumeSig : (refund perm).checkConsumeSig = 0 := by
  have hreq : (refund perm).isSpendReq = 1 :=
    (refund_satisfied perm).isSpendReq_eq_one.mpr ⟨0, rfl, rfl⟩
  rw [TxCircuitTargets.checkConsumeSig, hreq, not_one]
  simp [and]

end Refund

/-- A refund in a pair that is not flagged needs no consume signature. -/
theorem consume_signature_not_required : passThrough.notFakeTx = 1 ∧ ∀ perm : State → State,
    ConsumesUnsigned perm ((refund perm).withoutConsume perm) :=
  ⟨rfl, fun perm => (refund_satisfied perm).consumesUnsigned (refund_checkConsumeSig perm) rfl
    ⟨0, rfl⟩ (refund_mirrors perm) rfl⟩

theorem payment_spend_authorized : (payment.targets id).notFakeTx = 1 ∧
    (payment.targets id).spend.Satisfied id ((payment.targets id).txHash id)
      (payment.targets id).accin.spendAuth 1 := by
  have hgadget : ∀ (s : SchnorrTargets) (message : HashOut) (pubkey : PubkeyTarget),
      s.Satisfied id message pubkey 1 → s.Satisfied id message pubkey 1 := fun _ _ _ h => h
  have hauth := TxCircuitTargets.spend_authorization hgadget (payment_valid.satisfied id) rfl
  refine ⟨rfl, hauth.2.1 ⟨0, rfl, ?_⟩⟩
  rintro ⟨-, hmirror⟩
  have hamount : payment.onoteAmt 0 = payment.inoteAmt 0 := congrFun hmirror.amount 0
  exact absurd hamount (by decide +kernel)

end Doxa.Circuit
