import Doxa.Circuit.Soundness
import Doxa.Client.Noteless

/-!
# The first transaction of an account

A fresh-account transaction sets the keys. The builder takes any account of nonce zero, asks for
both keys and for the seeds of all slots, which are dummies, and leaves the asset tree alone. What
the circuit checks further (no keys yet and the tree of a new account) it does not test: the witness
is written for any account, and satisfies the circuit exactly for a fresh one (`fresh_provable_iff`).
-/

namespace Doxa.Client.FreshAcc

open Lib Circuit Trees
open Spend (SubpoolFullProof TxKindFlags TxSignatureTargets)
open StateSync (pathTarget pathTarget_satisfied)

/-! ## The builder -/

inductive FreshAccTxBuilderError
  | accountAlreadyInitialized
  | spendKeyNotSet
  | consumeKeyNotSet
  | dummyNotesNotFilled (kind : String)
  | stateRootNotSet
  | subpoolProofNotSet
  | approvalSigNotSet
  | panic
  deriving DecidableEq

def okOr {α : Type} (e : FreshAccTxBuilderError) : Option α → Except FreshAccTxBuilderError α
  | some a => .ok a
  | none => .error e

def orPanic {α : Type} : Except Failure α → Except FreshAccTxBuilderError α
  | .ok a => .ok a
  | .error _ => .error .panic

/-- The seeds of a kind of dummies are `NOTE_BATCH` many. -/
structure FreshAccTxBuilder where
  accin : StandardAccount
  newSpendAuth : Option SpendAuth
  newConsumeAuth : Option ConsumeAuth
  dinotes : Option (Fin NOTE_BATCH → HashOut)
  donotes : Option (Fin NOTE_BATCH → HashOut)

structure BuiltFreshAccTx where
  accin : StandardAccount
  accout : StandardAccount
  dinotes : Fin NOTE_BATCH → HashOut
  donotes : Fin NOTE_BATCH → HashOut
  txHash : HashOut
  stateRoot : Option HashOut
  subpoolProof : Option SubpoolFullProof
  approvalSig : Option Signature

def TxKindFlags.FRESH_ACC : TxKindFlags where
  isFreshAcc := true
  isUpdateAuth := false
  isPrivTx := false
  notFakeTx := true

variable (perm : State → State)

namespace FreshAccTxBuilder

def new (accin : StandardAccount) : Except FreshAccTxBuilderError FreshAccTxBuilder := do
  revertIf (accin.nonce ≠ 0) .accountAlreadyInitialized
  return ⟨accin, none, none, none, none⟩

variable (self : FreshAccTxBuilder)

def withNewSpendKey (spendPk : CompressedPublicKey) : FreshAccTxBuilder :=
  { self with newSpendAuth := some ⟨some spendPk⟩ }

def withNewConsumeKey (consumePk : CompressedPublicKey) : FreshAccTxBuilder :=
  { self with newConsumeAuth := some ⟨true, some consumePk⟩ }

def withDelegatedConsume : FreshAccTxBuilder :=
  { self with newConsumeAuth := some ⟨false, none⟩ }

/-- `fill_dinotes`, with the seeds it draws. -/
def fillDinotes (seeds : Fin NOTE_BATCH → HashOut) : FreshAccTxBuilder :=
  { self with dinotes := some seeds }

def fillDonotes (seeds : Fin NOTE_BATCH → HashOut) : FreshAccTxBuilder :=
  { self with donotes := some seeds }

def build : Except FreshAccTxBuilderError BuiltFreshAccTx := do
  let newSpendAuth ← okOr .spendKeyNotSet self.newSpendAuth
  let newConsumeAuth ← okOr .consumeKeyNotSet self.newConsumeAuth
  let accout := { self.accin.cloneWithIncrementedNonce with
    spendAuth := newSpendAuth, consumeAuth := newConsumeAuth }
  let dinotes ← okOr (.dummyNotesNotFilled "input") self.dinotes
  let donotes ← okOr (.dummyNotesNotFilled "output") self.donotes
  let accinNull ← orPanic (self.accin.nullifier perm)
  let accoutComm ← orPanic (accout.commitment perm)
  return {
    accin := self.accin
    accout := accout
    dinotes := dinotes
    donotes := donotes
    txHash := derivePrivTxHash perm accinNull accoutComm (fun i => doubleHashNative perm (dinotes i))
      fun i => doubleHashNative perm (donotes i)
    stateRoot := none
    subpoolProof := none
    approvalSig := none }

end FreshAccTxBuilder

/-- The calls between `new` and `build`. -/
inductive FreshAccCall
  | withNewSpendKey (spendPk : CompressedPublicKey)
  | withNewConsumeKey (consumePk : CompressedPublicKey)
  | withDelegatedConsume
  | fillDinotes (seeds : Fin NOTE_BATCH → HashOut)
  | fillDonotes (seeds : Fin NOTE_BATCH → HashOut)

namespace FreshAccTxBuilder

def call (self : FreshAccTxBuilder) : FreshAccCall → FreshAccTxBuilder
  | .withNewSpendKey spendPk => self.withNewSpendKey spendPk
  | .withNewConsumeKey consumePk => self.withNewConsumeKey consumePk
  | .withDelegatedConsume => self.withDelegatedConsume
  | .fillDinotes seeds => self.fillDinotes seeds
  | .fillDonotes seeds => self.fillDonotes seeds

def calls (self : FreshAccTxBuilder) (cs : List FreshAccCall) : FreshAccTxBuilder := cs.foldl call self

end FreshAccTxBuilder

namespace BuiltFreshAccTx

variable (self : BuiltFreshAccTx)

def approvalSign (schnorrSign : Scalar → HashOut → Signature) (approvalSk : Scalar) : BuiltFreshAccTx :=
  { self with approvalSig := some (schnorrSign approvalSk self.txHash) }

def withStateRoot (stateRoot : HashOut) : BuiltFreshAccTx := { self with stateRoot := some stateRoot }

def withSubpoolProof (subpoolProof : SubpoolFullProof) : BuiltFreshAccTx :=
  { self with subpoolProof := some subpoolProof }

/-- The fields of the unified transaction; the account is not in the state tree yet. -/
def privTx (approvalSig : Signature) (stateRoot : HashOut) (subpoolProof : SubpoolFullProof) :
    Spend.BuiltPrivTx where
  txKindFlags := TxKindFlags.FRESH_ACC
  accin := self.accin
  accout := self.accout
  accinMerkleProof := Noteless.dummyMerkleProof STATE_TREE_DEPTH
  rejectedInotes := []
  rejectedInotesNctProofs := []
  inotes := []
  inotesNctProofs := []
  onotes := []
  dinotes := List.ofFn self.dinotes
  donotes := List.ofFn self.donotes
  txHash := self.txHash
  stateRoot := stateRoot
  mainpoolConfigRoot := subpoolProof.mainPoolProof.root
  subpoolProof := subpoolProof
  approvalKey := subpoolProof.approvalKey
  spendSig := none
  consumeSig := none
  approvalSig := some approvalSig

def intoPrivTx : Except FreshAccTxBuilderError Spend.BuiltPrivTx := do
  let approvalSig ← okOr .approvalSigNotSet self.approvalSig
  let stateRoot ← okOr .stateRootNotSet self.stateRoot
  let subpoolProof ← okOr .subpoolProofNotSet self.subpoolProof
  return self.privTx approvalSig stateRoot subpoolProof

end BuiltFreshAccTx

/-! ## What is built -/

variable {perm}

theorem okOr_eq_ok {α : Type} {e : FreshAccTxBuilderError} {x : Option α} {a : α} :
    okOr e x = .ok a ↔ x = some a := by
  cases x with
  | some b => simp only [okOr, Except.ok.injEq, Option.some.injEq]
  | none => simp only [okOr, reduceCtorEq]

theorem orPanic_eq_ok {α : Type} {x : Except Failure α} {a : α} : orPanic x = .ok a ↔ x = .ok a := by
  cases x with
  | ok b => simp only [orPanic, Except.ok.injEq]
  | error e => simp only [orPanic, reduceCtorEq]

section Build

variable {accin : StandardAccount} {b : FreshAccTxBuilder} {tx : BuiltFreshAccTx}

theorem new_eq_ok (h : FreshAccTxBuilder.new accin = .ok b) :
    accin.nonce = 0 ∧ b = ⟨accin, none, none, none, none⟩ := by
  obtain ⟨hnonce, h⟩ := revertIf_bind_eq_ok.mp h
  exact ⟨not_not.mp hnonce, (pure_eq_ok.mp h).symm⟩

/-- What the calls keep: the account, and that a consume key is the one the commitment absorbs. -/
structure Started (accin : StandardAccount) (b : FreshAccTxBuilder) : Prop where
  account : b.accin = accin
  regular : ∀ auth, b.newConsumeAuth = some auth → auth.Regular

theorem Started.call (h : Started accin b) (c : FreshAccCall) : Started accin (b.call c) := by
  cases c with
  | withNewSpendKey spendPk => exact ⟨h.account, h.regular⟩
  | withNewConsumeKey consumePk =>
    refine ⟨h.account, fun auth hauth => ?_⟩
    obtain rfl := Option.some.inj hauth
    exact ⟨fun _ => Option.some_ne_none _, fun hdelegated => absurd hdelegated.symm Bool.false_ne_true⟩
  | withDelegatedConsume =>
    refine ⟨h.account, fun auth hauth => ?_⟩
    obtain rfl := Option.some.inj hauth
    exact ⟨fun hown => absurd hown Bool.false_ne_true, fun _ => .inl rfl⟩
  | fillDinotes seeds => exact ⟨h.account, h.regular⟩
  | fillDonotes seeds => exact ⟨h.account, h.regular⟩

theorem Started.calls (h : Started accin b) (cs : List FreshAccCall) : Started accin (b.calls cs) := by
  induction cs generalizing b with
  | nil => exact h
  | cons c cs ih => exact ih (h.call c)

theorem new_started (h : FreshAccTxBuilder.new accin = .ok b) : Started accin b := by
  obtain ⟨-, rfl⟩ := new_eq_ok h
  exact ⟨rfl, fun auth hauth => by cases hauth⟩

/-- The slots that are hashed are all dummies. -/
def BuiltFreshAccTx.slots (tx : BuiltFreshAccTx) : Client.BuiltPrivTx :=
  Noteless.slots tx.accin tx.accout tx.dinotes tx.donotes

variable (perm) in
/-- What a built transaction holds. -/
structure Built (accin : StandardAccount) (tx : BuiltFreshAccTx) : Prop where
  account : tx.accin = accin
  keys : ∃ spendAuth consumeAuth, consumeAuth.Regular ∧ tx.accout =
    { accin.cloneWithIncrementedNonce with spendAuth := spendAuth, consumeAuth := consumeAuth }
  hash : tx.slots.txHash perm = .ok tx.txHash

theorem Started.build (hb : Started accin b) (h : b.build perm = .ok tx) : Built perm accin tx := by
  obtain ⟨spendAuth, -, h⟩ := bind_eq_ok.mp h
  obtain ⟨consumeAuth, hconsume, h⟩ := bind_eq_ok.mp h
  obtain ⟨dinotes, -, h⟩ := bind_eq_ok.mp h
  obtain ⟨donotes, -, h⟩ := bind_eq_ok.mp h
  obtain ⟨accinNull, hnull, h⟩ := bind_eq_ok.mp h
  obtain ⟨accoutComm, hcomm, h⟩ := bind_eq_ok.mp h
  obtain rfl := pure_eq_ok.mp h
  refine ⟨hb.account, ⟨spendAuth, consumeAuth, hb.regular _ (okOr_eq_ok.mp hconsume), ?_⟩, ?_⟩
  · rw [← hb.account]
  · have hnulls : (collect fun i : Fin NOTE_BATCH => (InoteSlot.dummy (dinotes i)).nullifier perm
        (b.accin.nk perm)) = .ok fun i => doubleHashNative perm (dinotes i) :=
      collect_eq_ok fun i => rfl
    exact bind_eq_ok.mpr ⟨_, hnulls, bind_eq_ok.mpr ⟨_, orPanic_eq_ok.mp hnull,
      bind_eq_ok.mpr ⟨_, orPanic_eq_ok.mp hcomm, rfl⟩⟩⟩

/-! ## When a transaction is built -/

namespace FreshAccCall

def setsSpend : FreshAccCall → Bool
  | .withNewSpendKey _ => true
  | _ => false

def setsConsume : FreshAccCall → Bool
  | .withNewConsumeKey _ => true
  | .withDelegatedConsume => true
  | _ => false

def fillsDinotes : FreshAccCall → Bool
  | .fillDinotes _ => true
  | _ => false

def fillsDonotes : FreshAccCall → Bool
  | .fillDonotes _ => true
  | _ => false

end FreshAccCall

/-- Each of the four parts was set by some call. -/
structure Complete (cs : List FreshAccCall) : Prop where
  spend : ∃ c ∈ cs, c.setsSpend = true
  consume : ∃ c ∈ cs, c.setsConsume = true
  dinotes : ∃ c ∈ cs, c.fillsDinotes = true
  donotes : ∃ c ∈ cs, c.fillsDonotes = true

/-- Each field is set by its own calls and unset by none. -/
theorem call_set (b : FreshAccTxBuilder) (c : FreshAccCall) :
    ((b.call c).newSpendAuth ≠ none ↔ c.setsSpend = true ∨ b.newSpendAuth ≠ none) ∧
      ((b.call c).newConsumeAuth ≠ none ↔ c.setsConsume = true ∨ b.newConsumeAuth ≠ none) ∧
      ((b.call c).dinotes ≠ none ↔ c.fillsDinotes = true ∨ b.dinotes ≠ none) ∧
      ((b.call c).donotes ≠ none ↔ c.fillsDonotes = true ∨ b.donotes ≠ none) := by
  cases c with
  | withNewSpendKey spendPk =>
    simp [FreshAccTxBuilder.call, FreshAccTxBuilder.withNewSpendKey, FreshAccCall.setsSpend,
      FreshAccCall.setsConsume, FreshAccCall.fillsDinotes, FreshAccCall.fillsDonotes]
  | withNewConsumeKey consumePk =>
    simp [FreshAccTxBuilder.call, FreshAccTxBuilder.withNewConsumeKey, FreshAccCall.setsSpend,
      FreshAccCall.setsConsume, FreshAccCall.fillsDinotes, FreshAccCall.fillsDonotes]
  | withDelegatedConsume =>
    simp [FreshAccTxBuilder.call, FreshAccTxBuilder.withDelegatedConsume, FreshAccCall.setsSpend,
      FreshAccCall.setsConsume, FreshAccCall.fillsDinotes, FreshAccCall.fillsDonotes]
  | fillDinotes seeds =>
    simp [FreshAccTxBuilder.call, FreshAccTxBuilder.fillDinotes, FreshAccCall.setsSpend,
      FreshAccCall.setsConsume, FreshAccCall.fillsDinotes, FreshAccCall.fillsDonotes]
  | fillDonotes seeds =>
    simp [FreshAccTxBuilder.call, FreshAccTxBuilder.fillDonotes, FreshAccCall.setsSpend,
      FreshAccCall.setsConsume, FreshAccCall.fillsDinotes, FreshAccCall.fillsDonotes]

/-- A field that no call unsets is set after the calls exactly if it was before, or one of them
sets it. -/
theorem calls_set {α : Type} (field : FreshAccTxBuilder → Option α) (sets : FreshAccCall → Bool)
    (hcall : ∀ b c, field (b.call c) ≠ none ↔ sets c = true ∨ field b ≠ none)
    (b : FreshAccTxBuilder) (cs : List FreshAccCall) :
    field (b.calls cs) ≠ none ↔ (∃ c ∈ cs, sets c = true) ∨ field b ≠ none := by
  induction cs generalizing b with
  | nil => simp [FreshAccTxBuilder.calls]
  | cons c cs ih =>
    refine (ih (b.call c)).trans ?_
    rw [hcall, List.exists_mem_cons_iff, ← or_assoc, @or_comm (∃ c ∈ cs, sets c = true)]

theorem new_complete_iff (h : FreshAccTxBuilder.new accin = .ok b) (cs : List FreshAccCall) :
    Complete cs ↔ (b.calls cs).newSpendAuth ≠ none ∧ (b.calls cs).newConsumeAuth ≠ none ∧
      (b.calls cs).dinotes ≠ none ∧ (b.calls cs).donotes ≠ none := by
  obtain ⟨-, rfl⟩ := new_eq_ok h
  have hspend := calls_set FreshAccTxBuilder.newSpendAuth FreshAccCall.setsSpend
    (fun b c => (call_set b c).1) ⟨accin, none, none, none, none⟩ cs
  have hconsume := calls_set FreshAccTxBuilder.newConsumeAuth FreshAccCall.setsConsume
    (fun b c => (call_set b c).2.1) ⟨accin, none, none, none, none⟩ cs
  have hdinotes := calls_set FreshAccTxBuilder.dinotes FreshAccCall.fillsDinotes
    (fun b c => (call_set b c).2.2.1) ⟨accin, none, none, none, none⟩ cs
  have hdonotes := calls_set FreshAccTxBuilder.donotes FreshAccCall.fillsDonotes
    (fun b c => (call_set b c).2.2.2) ⟨accin, none, none, none, none⟩ cs
  simp only [ne_eq, not_true, or_false] at hspend hconsume hdinotes hdonotes
  rw [ne_eq, ne_eq, ne_eq, ne_eq, hspend, hconsume, hdinotes, hdonotes]
  exact ⟨fun h => ⟨h.spend, h.consume, h.dinotes, h.donotes⟩, fun ⟨hs, hc, hi, ho⟩ => ⟨hs, hc, hi, ho⟩⟩

/-- The parts and the two digests are all that `build` unwraps. -/
theorem Started.build_iff (hb : Started accin b) (hroot : ∃ r, accin.ast.root perm = .ok r) :
    (∃ tx, b.build perm = .ok tx) ↔ (b.newSpendAuth ≠ none ∧ b.newConsumeAuth ≠ none ∧
      b.dinotes ≠ none ∧ b.donotes ≠ none) ∧ accin.consumeAuth.KeySet := by
  constructor
  · rintro ⟨tx, h⟩
    obtain ⟨spendAuth, hspend, h⟩ := bind_eq_ok.mp h
    obtain ⟨consumeAuth, hconsume, h⟩ := bind_eq_ok.mp h
    obtain ⟨dinotes, hdinotes, h⟩ := bind_eq_ok.mp h
    obtain ⟨donotes, hdonotes, h⟩ := bind_eq_ok.mp h
    obtain ⟨accinNull, hnull, -⟩ := bind_eq_ok.mp h
    rw [hb.account] at hnull
    rw [okOr_eq_ok] at hspend hconsume hdinotes hdonotes
    rw [hspend, hconsume, hdinotes, hdonotes]
    exact ⟨⟨Option.some_ne_none _, Option.some_ne_none _, Option.some_ne_none _, Option.some_ne_none _⟩,
      (nullifier_iff hroot).mp ⟨_, orPanic_eq_ok.mp hnull⟩⟩
  · rintro ⟨⟨hspend, hconsume, hdinotes, hdonotes⟩, hset⟩
    obtain ⟨spendAuth, hspend⟩ := Option.ne_none_iff_exists'.mp hspend
    obtain ⟨consumeAuth, hconsume⟩ := Option.ne_none_iff_exists'.mp hconsume
    obtain ⟨dinotes, hdinotes⟩ := Option.ne_none_iff_exists'.mp hdinotes
    obtain ⟨donotes, hdonotes⟩ := Option.ne_none_iff_exists'.mp hdonotes
    obtain ⟨accinNull, hnull⟩ := (nullifier_iff hroot).mpr hset
    rw [← hb.account] at hroot hnull
    obtain ⟨accoutComm, hcomm⟩ := (@commitment_iff perm { b.accin.cloneWithIncrementedNonce with
      spendAuth := spendAuth, consumeAuth := consumeAuth } hroot).mpr (hb.regular _ hconsume).own
    exact ⟨_, bind_eq_ok.mpr ⟨_, okOr_eq_ok.mpr hspend, bind_eq_ok.mpr ⟨_, okOr_eq_ok.mpr hconsume,
      bind_eq_ok.mpr ⟨_, okOr_eq_ok.mpr hdinotes, bind_eq_ok.mpr ⟨_, okOr_eq_ok.mpr hdonotes,
        bind_eq_ok.mpr ⟨_, orPanic_eq_ok.mpr hnull,
          bind_eq_ok.mpr ⟨_, orPanic_eq_ok.mpr hcomm, rfl⟩⟩⟩⟩⟩⟩⟩

end Build

/-! ## When it is proven -/

/-- The witness is written and satisfies the circuit with the signed hash. -/
def Provable (perm : State → State) (sigs : TxSignatureTargets) (tx : BuiltFreshAccTx) : Prop :=
  ∃ ptx t, tx.intoPrivTx = .ok ptx ∧ ptx.setWitness perm sigs = .ok t ∧ t.txHash perm = tx.txHash ∧
    t.Satisfied perm

/-- The subpool with its approval key is in the main pool, and the signature targets are those of the
hash. That of the approval is checked; the checks of the two keys are off. -/
structure Authorized (perm : State → State) (sigs : TxSignatureTargets) (tx : BuiltFreshAccTx)
    (subpoolProof : SubpoolFullProof) : Prop where
  depth : subpoolProof.mainPoolProof.siblings.length = MAIN_POOL_CONFIG_DEPTH
  subpool : AssertSubpoolFullProof perm (pathTarget MAIN_POOL_CONFIG_DEPTH
    subpoolProof.mainPoolProof.siblings subpoolProof.mainPoolProof.path) tx.accin.subpoolId
    subpoolProof.approvalKey subpoolProof.mainPoolProof.root 1
  spend : sigs.spend.Satisfied perm tx.txHash tx.accin.spendAuth.pkOrDefault 0
  consume : sigs.consume.Satisfied perm tx.txHash tx.accin.consumeAuth.pkOrDefault 0
  approval : sigs.approval.Satisfied perm tx.txHash subpoolProof.approvalKey 1

/-- The keys of an account that is fresh for the circuit are regular. -/
theorem CircuitFresh.regular {acc : StandardAccount} (h : CircuitFresh perm acc) :
    acc.consumeAuth.Regular := by
  obtain ⟨target, htarget, hfresh⟩ := h
  obtain ⟨r, hr, -⟩ := bind_eq_ok.mp htarget
  rw [setWitness_eq hr] at htarget
  rw [← Except.ok.inj htarget] at hfresh
  obtain ⟨hdefaults, -⟩ := assertFreshAccount_iff.mp hfresh
  refine ⟨fun hown => absurd (hdefaults.config.symm.trans hown) Bool.false_ne_true, fun _ => ?_⟩
  have hpk := hdefaults.consume
  unfold ConsumeAuth.pkOrDefault at hpk
  cases hkey : acc.consumeAuth.pk with
  | none => exact .inl rfl
  | some pk =>
    rw [hkey] at hpk
    exact .inr (congrArg some hpk)

section Proven

variable {accin : StandardAccount} {tx : BuiltFreshAccTx} {sigs : TxSignatureTargets}
  {approvalSig : Signature} {stateRoot : HashOut} {subpoolProof : SubpoolFullProof}
  {tin : AccountTarget}

theorem Built.noteless (htx : Built perm accin tx) (approvalSig : Signature) (stateRoot : HashOut)
    (subpoolProof : SubpoolFullProof) :
    Noteless (tx.privTx approvalSig stateRoot subpoolProof) tx.dinotes tx.donotes where
  rejected := rfl
  inotes := rfl
  onotes := rfl
  dinotes := rfl
  donotes := rfl
  account := by
    obtain ⟨spendAuth, consumeAuth, -, haccout⟩ := htx.keys
    rw [← htx.account] at haccout
    exact ⟨spendAuth, consumeAuth, haccout⟩
  not_priv_tx := rfl
  path := List.length_replicate

/-- The flags switch on the comparison with a fresh account, and the path of the account off. -/
theorem checks_iff :
    Noteless.Checks perm sigs (tx.privTx approvalSig stateRoot subpoolProof) tin tx.txHash ∧
        subpoolProof.mainPoolProof.siblings.length = MAIN_POOL_CONFIG_DEPTH ↔
      AssertFreshAccount tin 1 ∧ Authorized perm sigs tx subpoolProof := by
  constructor
  · rintro ⟨h, hdepth⟩
    exact ⟨h.fresh, hdepth, h.subpool, h.spend, h.consume, h.approval⟩
  · rintro ⟨hfresh, h⟩
    have hidle : Circuit.and (Circuit.not 1) 1 = 0 := by rw [Circuit.not_one, Circuit.and, zero_mul]
    refine ⟨⟨hfresh, ?_, h.subpool, h.spend, h.consume, h.approval⟩, h.depth⟩
    show CondHashEq (Circuit.and (Circuit.not 1) 1) _ _
    rw [hidle]
    exact condHashEq_zero _ _

end Proven

/-! ## The first transaction of a new account -/

/-- The account that `new_with` returns. -/
def newAccount (ast : AccountStateTree) : StandardAccount := ⟨0, 1, 0, .default, .default, ast⟩

theorem newAccount_newWith {ast : AccountStateTree} (h : AccountStateTree.new perm = .ok ast) :
    StandardAccount.newWith perm 0 1 = .ok (newAccount ast) := by
  rw [StandardAccount.newWith, h]
  rfl

def newCalls : List FreshAccCall :=
  [.withNewSpendKey generatorKey, .withDelegatedConsume, .fillDinotes fun _ => 0,
    .fillDonotes fun _ => 0]

theorem newCalls_complete : Complete newCalls where
  spend := ⟨_, List.mem_cons_self, rfl⟩
  consume := ⟨.withDelegatedConsume, by simp [newCalls], rfl⟩
  dinotes := ⟨.fillDinotes fun _ => 0, by simp [newCalls], rfl⟩
  donotes := ⟨.fillDonotes fun _ => 0, by simp [newCalls], rfl⟩

theorem newAccount_new (ast : AccountStateTree) :
    FreshAccTxBuilder.new (newAccount ast) = .ok ⟨newAccount ast, none, none, none, none⟩ :=
  revertIf_bind_eq_ok.mpr ⟨not_not.mpr rfl, rfl⟩

theorem newAccount_keySet (ast : AccountStateTree) : (newAccount ast).consumeAuth.KeySet :=
  fun hown => absurd hown Bool.false_ne_true

/-- The subpool is the first one of the main pool. -/
def onlySubpool (perm : State → State) (subpoolId : F) : SubpoolFullProof where
  approvalKey := generatorKey
  mainPoolProof := proofOf (hashOutput perm) MAIN_POOL_CONFIG_DEPTH
    [mainPoolLeaf perm subpoolId generatorKey] 0

def forgedSignatures (perm : State → State) (tx : BuiltFreshAccTx) (approvalKey : CompressedPublicKey) :
    TxSignatureTargets where
  spend := forgedTargets perm tx.txHash tx.accin.spendAuth.pkOrDefault
  consume := forgedTargets perm tx.txHash tx.accin.consumeAuth.pkOrDefault
  approval := forgedTargets perm tx.txHash approvalKey

theorem onlySubpool_authorized (perm : State → State) (tx : BuiltFreshAccTx) :
    Authorized perm (forgedSignatures perm tx generatorKey) tx (onlySubpool perm tx.accin.subpoolId) where
  depth := by simp [onlySubpool, proofOf]
  subpool := by
    refine ⟨pathTarget_satisfied _ _, condHashEq_one.mpr ?_⟩
    have hleaf : (hashOutput perm).leafOf [mainPoolLeaf perm tx.accin.subpoolId generatorKey] 0 =
        mainPoolLeaf perm tx.accin.subpoolId generatorKey := by
      rw [MerkleHash.leafOf, List.getD_cons_zero]
    rw [onlySubpool, StateSync.pathTarget_proofOf_root (by decide),
      Function.update_eq_self_iff.mpr hleaf.symm]
    rfl
  spend := forgedTargets_satisfied _ _ _ _
  consume := forgedTargets_satisfied _ _ _ _
  approval := forgedTargets_satisfied _ _ _ _

/-- A fresh-account transaction is built exactly if both keys and both kinds of seeds were set, and
the account has a consume key where it consumes itself. -/
theorem fresh_build_iff (perm : State → State) {accin : StandardAccount} {b : FreshAccTxBuilder}
    (hast : accin.ast.Reachable perm) (hnew : FreshAccTxBuilder.new accin = .ok b)
    (cs : List FreshAccCall) :
    (∃ tx, (b.calls cs).build perm = .ok tx) ↔ Complete cs ∧ accin.consumeAuth.KeySet := by
  rw [new_complete_iff hnew]
  exact ((new_started hnew).calls cs).build_iff hast.root

/-- A new account whose keys and seeds are chosen. -/
theorem fresh_build_iff_new : ∃ acc b, acc.ast.Reachable poseidon ∧ FreshAccTxBuilder.new acc = .ok b ∧
    ∃ tx, (b.calls newCalls).build poseidon = .ok tx := by
  obtain ⟨ast, hnew⟩ := AccountStateTree.new_ok poseidon
  refine ⟨newAccount ast, _, .new hnew, newAccount_new ast, ?_⟩
  exact (fresh_build_iff poseidon (.new hnew) (newAccount_new ast) newCalls).mpr
    ⟨newCalls_complete, newAccount_keySet ast⟩

/-- A fresh-account transaction is accepted exactly for an account whose keys and nonce are the default
ones and whose tree is that of a new account, or clashes with it, if it is authorized. -/
theorem fresh_provable_iff {accin : StandardAccount} {b : FreshAccTxBuilder} {tx : BuiltFreshAccTx}
    (hacc : Subpool.Reachable poseidon accin) (hnew : FreshAccTxBuilder.new accin = .ok b)
    (cs : List FreshAccCall) (hbuild : (b.calls cs).build poseidon = .ok tx)
    (schnorrSign : Scalar → HashOut → Signature) (approvalSk : Scalar) (stateRoot : HashOut)
    (subpoolProof : SubpoolFullProof) (sigs : TxSignatureTargets) :
    Provable poseidon sigs (((tx.approvalSign schnorrSign approvalSk).withStateRoot
        stateRoot).withSubpoolProof subpoolProof) ↔
      (accin.Defaults ∧ (accin.ast.size = 1 ∨ RootClash poseidon accin.ast)) ∧
        Authorized poseidon sigs tx subpoolProof := by
  have htx := ((new_started hnew).calls cs).build hbuild
  have haccin : tx.accin = accin := htx.account
  have hnoteless := htx.noteless (schnorrSign approvalSk tx.txHash) stateRoot subpoolProof
  obtain ⟨ds, hm⟩ := hacc.ast.mirrors
  rw [← haccin] at hm
  obtain ⟨spendAuth, consumeAuth, hregular, haccout⟩ := htx.keys
  rw [← haccin] at haccout
  have hkept : tx.accout.ast = tx.accin.ast := (congrArg StandardAccount.ast haccout).trans rfl
  obtain ⟨r, hr⟩ := hacc.ast.root
  rw [← haccin] at hr
  have hin := setWitness_eq hr
  rw [← hkept] at hr
  have hout := setWitness_eq hr
  obtain ⟨ast, hast, hwitness⟩ := hnoteless.setAstWitness_ok hm
  have hwritten {w} := @Noteless.setWitness_iff poseidon _ _ _ sigs _ _ ast hnoteless w hin hout hast
  have hsatisfied := @Noteless.satisfied_iff poseidon _ _ _ sigs _ _ ast ds hnoteless hm hin hout hwitness
  rw [← circuitFresh_iff hacc, ← haccin]
  have hfresh : CircuitFresh poseidon tx.accin ↔ AssertFreshAccount (accountTarget tx.accin r) 1 := by
    constructor
    · rintro ⟨target, htarget, hfresh⟩
      rwa [← Except.ok.inj (hin.symm.trans htarget)] at hfresh
    · exact fun hfresh => ⟨_, hin, hfresh⟩
  constructor
  · rintro ⟨ptx, w, hptx, hw, hhash, hsat⟩
    obtain rfl := Except.ok.inj hptx
    obtain ⟨hdepth, rfl⟩ := hwritten.mp hw
    have hchecks := hsatisfied.mp hsat
    rw [hhash] at hchecks
    obtain ⟨hstart, hauthorized⟩ := checks_iff.mp ⟨hchecks, hdepth⟩
    exact ⟨hfresh.mpr hstart, hauthorized⟩
  · rintro ⟨hstart, hauthorized⟩
    obtain ⟨hchecks, hdepth⟩ := checks_iff.mpr ⟨hfresh.mp hstart, hauthorized⟩
    have hkeys : tx.slots.Regular := by
      refine ⟨CircuitFresh.regular hstart, ?_, fun i note position hslot => by cases hslot⟩
      show tx.accout.consumeAuth.Regular
      rw [haccout]
      exact hregular
    have hholds := @Noteless.holds poseidon (tx.privTx (schnorrSign approvalSk tx.txHash) stateRoot
      subpoolProof) tx.dinotes tx.donotes sigs _ _ ast hin hout
    have hhash := Except.ok.inj ((privTxHash_holds hkeys hholds).symm.trans htx.hash)
    rw [← hhash] at hchecks
    exact ⟨_, _, rfl, hwritten.mpr ⟨hdepth, rfl⟩, hhash, hsatisfied.mpr hchecks⟩

/-- A new account that delegates its consumption. -/
theorem fresh_provable_new : ∃ acc b tx r p sigs, Subpool.Reachable poseidon acc ∧
    FreshAccTxBuilder.new acc = .ok b ∧ (b.calls newCalls).build poseidon = .ok tx ∧
    Provable poseidon sigs (((tx.approvalSign (fun _ _ => ⟨generator, 0⟩) 0).withStateRoot
      r).withSubpoolProof p) := by
  obtain ⟨ast, hnew⟩ := AccountStateTree.new_ok poseidon
  have hacc : Subpool.Reachable poseidon (newAccount ast) := .newWith (newAccount_newWith hnew)
  have hb := newAccount_new ast
  obtain ⟨tx, hbuild⟩ := (((new_started hb).calls newCalls).build_iff hacc.ast.root).mpr
    ⟨(new_complete_iff hb newCalls).mp newCalls_complete, newAccount_keySet ast⟩
  have hsize : (newAccount ast).ast.size = 1 := by
    show ast.size = 1
    rw [AccountStateTree.size, (AccountStateTree.new_eq_ok hnew).numLeaves]
    rfl
  refine ⟨newAccount ast, _, tx, 0, onlySubpool poseidon tx.accin.subpoolId,
    forgedSignatures poseidon tx generatorKey, hacc, hb, hbuild, ?_⟩
  exact (fresh_provable_iff hacc hb newCalls hbuild _ _ _ _ _).mpr
    ⟨⟨⟨rfl, rfl, rfl, rfl⟩, .inl hsize⟩, onlySubpool_authorized poseidon tx⟩

end Doxa.Client.FreshAcc
