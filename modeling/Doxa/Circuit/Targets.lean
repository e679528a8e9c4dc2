import Doxa.Circuit.Builder

/-!
# Accounts, notes and their digests

The targets of an account and of a note, and everything the circuits derive from them by
Poseidon: commitments, nullifiers, identifiers, the leaf of an asset in the account's
asset tree and the transaction hash. Each `preimage` lists the elements in the order the
circuit absorbs them.
-/

namespace Doxa.Circuit

open Lib

/-! ## Constants -/

def DS_NULLIFIER_KEY : F := 12
def DS_PUBLIC_IDENTIFIER : F := 13
def DS_ACC_AST_LEAF : F := 1312

def AST_DEFAULT_LEAF : HashOut := 0

def AST_DEFAULT_ROOT : HashOut :=
  ![2537328717772714990, 1534150781011785517, 14977255124160483673, 9325839111461431495]

def DEFAULT_SPEND_AUTH_PK : Fin 5 → F :=
  ![7613690455422068269, 12930951591626745075, 16103143792840800039, 4657200339622395349,
    3857357297380158342]

def DEFAULT_ACC_COMM_CONSUME_PK_PLACEHOLDER : Fin 5 → F :=
  ![7613690455422068269, 12930951591626745075, 16103143792840800039, 4657200339622395349,
    3857357297380158342]

abbrev NOTE_BATCH : ℕ := 7
def STATE_TREE_DEPTH : ℕ := 32
def ACC_AST_DEPTH : ℕ := 10
def MAIN_POOL_CONFIG_DEPTH : ℕ := 20

/-! ## Targets -/

/-- Eight limbs, the least significant one first. -/
abbrev U256Target := Fin 8 → F

/-- A compressed public key. -/
abbrev PubkeyTarget := Fin 5 → F

structure ConsumeAuthTarget where
  config : F
  pk : PubkeyTarget
  deriving DecidableEq

structure AccountTarget where
  privateIdentifier : Fin 2 → F
  nonce : F
  subpoolId : F
  accAstRoot : HashOut
  spendAuth : PubkeyTarget
  consumeAuth : ConsumeAuthTarget
  deriving DecidableEq

/-- The constraint of `add_virtual_account_target`. -/
def AccountTarget.Allocated (acc : AccountTarget) : Prop := IsBool acc.consumeAuth.config

structure AccountAddressTarget where
  subpoolId : F
  publicIdentifier : HashOut
  deriving DecidableEq

structure StandardNoteTarget where
  identifier : Fin 2 → F
  amount : U256Target
  assetId : F
  recipient : AccountAddressTarget
  sender : AccountAddressTarget
  deriving DecidableEq

/-! ## Derived digests -/

def AccountTarget.preimage (acc : AccountTarget) : List F :=
  List.ofFn acc.privateIdentifier ++ [acc.subpoolId] ++ List.ofFn acc.accAstRoot ++ [acc.nonce] ++
    List.ofFn acc.spendAuth ++ [acc.consumeAuth.config] ++ List.ofFn acc.consumeAuth.pk

def StandardNoteTarget.preimage (note : StandardNoteTarget) : List F :=
  List.ofFn note.identifier ++ List.ofFn note.amount ++ [note.assetId] ++
    [note.recipient.subpoolId] ++ List.ofFn note.recipient.publicIdentifier ++
    [note.sender.subpoolId] ++ List.ofFn note.sender.publicIdentifier

theorem AccountTarget.preimage_length (acc : AccountTarget) : acc.preimage.length = 19 := by
  simp [AccountTarget.preimage]

theorem AccountTarget.preimage_injective : Function.Injective AccountTarget.preimage := by
  intro acc acc' h
  obtain ⟨privId, nonce, subpool, root, spend, config, pk⟩ := acc
  obtain ⟨privId', nonce', subpool', root', spend', config', pk'⟩ := acc'
  simp only [AccountTarget.preimage] at h
  obtain ⟨h, hpk⟩ := List.append_inj' h (by simp)
  obtain ⟨h, hconfig⟩ := List.append_inj' h (by simp)
  obtain ⟨h, hspend⟩ := List.append_inj' h (by simp)
  obtain ⟨h, hnonce⟩ := List.append_inj' h (by simp)
  obtain ⟨h, hroot⟩ := List.append_inj' h (by simp)
  obtain ⟨hpriv, hsubpool⟩ := List.append_inj' h (by simp)
  rw [List.ofFn_inj] at hpk hspend hroot hpriv
  rw [List.singleton_inj] at hconfig hnonce hsubpool
  rw [hpk, hspend, hroot, hpriv, hconfig, hnonce, hsubpool]

theorem StandardNoteTarget.preimage_length (note : StandardNoteTarget) :
    note.preimage.length = 21 := by
  simp [StandardNoteTarget.preimage]

variable (perm : State → State)

def deriveAccountCommitment (acc : AccountTarget) : HashOut := hashNoPad perm acc.preimage

def deriveNoteCommitment (note : StandardNoteTarget) : HashOut := hashNoPad perm note.preimage

def deriveNullifierKey (privId : Fin 2 → F) : HashOut :=
  hashNoPad perm (DS_NULLIFIER_KEY :: List.ofFn privId)

def derivePublicIdentifier (privId : Fin 2 → F) : HashOut :=
  hashNoPad perm (DS_PUBLIC_IDENTIFIER :: List.ofFn privId)

def deriveAccountNullifier (accComm nk : HashOut) : HashOut :=
  hashNoPad perm (List.ofFn accComm ++ List.ofFn nk)

/-- What `derive_note_nullifier` hashes. -/
def noteNullifierPreimage (noteComm : HashOut) (pos : F) (nk : HashOut) : List F :=
  List.ofFn noteComm ++ [pos] ++ List.ofFn nk

def deriveNoteNullifier (noteComm : HashOut) (pos : F) (nk : HashOut) : HashOut :=
  hashNoPad perm (noteNullifierPreimage noteComm pos nk)

/-- `derive_dummy_note_nullifier` and `derive_dummy_note_commitment`. -/
def doubleHash (input : HashOut) : HashOut :=
  hashNoPad perm (List.ofFn (hashNoPad perm (List.ofFn input)))

def deriveTxHash (inotesNull onotesComm : Fin NOTE_BATCH → HashOut)
    (accinNull accoutComm : HashOut) : HashOut :=
  hashNoPad perm (List.ofFn accinNull ++ List.ofFn accoutComm ++
    (List.ofFn inotesNull).flatMap List.ofFn ++ (List.ofFn onotesComm).flatMap List.ofFn)

/-- What the leaf of an asset in the account's asset tree hashes. -/
def astLeafPreimage (assetId : F) (amt : U256Target) : List F :=
  DS_ACC_AST_LEAF :: assetId :: List.ofFn amt

def astLeaf (assetId : F) (amt : U256Target) : HashOut :=
  hashNoPad perm (astLeafPreimage assetId amt)

end Doxa.Circuit
