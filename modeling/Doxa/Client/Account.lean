import Doxa.Circuit.Targets
import Doxa.Contract.Calldata
import Doxa.Lib.Codec
import Doxa.Trees.Agreement
import Doxa.Trees.Update
import Mathlib.Data.List.AList

/-!
# Accounts of the client

The native account: its asset tree with the map of balances beside it, its keys, and the
digests derived from it. A `HashMap` is an association list without duplicate keys; no
result depends on the order of its entries. A call fails with an error it returns or by a
panic, the `unwrap` of nothing included.
-/

namespace Doxa.Client

open Lib Circuit Trees
open Contract (U256)

inductive Failure
  | error (message : String)
  | panic
  deriving DecidableEq, Repr

/-- `unwrap`. -/
def unwrap {α : Type} : Except Failure α → Except Failure α
  | .ok a => .ok a
  | .error _ => .error .panic

theorem unwrap_eq_ok {α : Type} {x : Except Failure α} {a : α} : unwrap x = .ok a ↔ x = .ok a := by
  cases x with
  | ok b => rfl
  | error e => simp [unwrap]

/-- The errors of the tree, by their texts. -/
def treeResult {α : Type} : Except TreeError α → Except Failure α
  | .ok a => .ok a
  | .error .fullTree => .error (.error "tree is full")
  | .error .panic => .error .panic

def updateResult {α : Type} : Except UpdateError α → Except Failure α
  | .ok a => .ok a
  | .error (.indexError i len) =>
    .error (.error s!"Failed to retrieve the node at index index: {i} >= {len}")
  | .error .panic => .error .panic

/-! ## Amounts -/

/-- `U256.0[i]`, the words from the least significant one on. -/
def word (x : U256) (i : ℕ) : BitVec 64 := (x >>> (64 * i)).setWidth 64

/-- The low and the high half of a word. -/
def lo32 (w : BitVec 64) : F := ((w.setWidth 32).toNat : F)
def hi32 (w : BitVec 64) : F := (((w >>> 32).setWidth 32).toNat : F)

/-- The eight limbs a digest absorbs for an amount. -/
def amountLimbs (x : U256) : List F :=
  (List.range 4).flatMap fun i => [lo32 (word x i), hi32 (word x i)]

/-- `U256` of its words. -/
def ofWords (w : ℕ → BitVec 64) : U256 := BitVec.ofNat 256 (littleEndian 64 (fun i => (w i).toNat) 4)

theorem ofWords_word (x : U256) : ofWords (word x) = x := by
  have hdigit : ∀ i < 4, (word x i).toNat = x.toNat / 2 ^ (64 * i) % 2 ^ 64 := by
    intro i _
    rw [word, BitVec.toNat_setWidth, BitVec.toNat_ushiftRight, Nat.shiftRight_eq_div_pow]
  rw [ofWords, littleEndian_congr hdigit, littleEndian_digits]
  exact BitVec.eq_of_toNat_eq (by rw [BitVec.toNat_ofNat, Nat.mod_mod, Nat.mod_eq_of_lt x.isLt])

/-! ## The asset tree -/

section AccountStateTree

variable (perm : State → State)

/-- `AccountStateTreeLeaf::commitment`. -/
def leafCommitment (assetId : F) (amount : U256) : HashOut :=
  hashNoPad perm (DS_ACC_AST_LEAF :: assetId :: amountLimbs amount)

/-- `HashMap<AssetId, (usize, U256)>`: the leaf index and the amount of each asset. -/
abbrev AssetMap := AList fun _ : F => ℕ × U256

structure AccountStateTree where
  tree : MerkleTree HashOut
  assets : AssetMap

namespace AccountStateTree

def _insertAsset (self : AccountStateTree) (assetId : F) (amount : U256) :
    Except Failure AccountStateTree := do
  let i := self.tree.numLeaves
  let inserted ← treeResult (self.tree.insert (hashOutput perm) (leafCommitment perm assetId amount))
  return { tree := inserted.1, assets := self.assets.insert assetId (i, amount) }

def new : Except Failure AccountStateTree := do
  let tree ← treeResult (MerkleTree.new (hashOutput perm) ACC_AST_DEPTH)
  unwrap (_insertAsset perm { tree := tree, assets := ∅ } 0 0)

def root (self : AccountStateTree) : Except Failure HashOut :=
  treeResult (self.tree.root (hashOutput perm))

def insertAsset (self : AccountStateTree) (assetId : F) (amount : U256) :
    Except Failure AccountStateTree :=
  if assetId = 0 then .error (.error "inserting the default asset id (0) is not allowed")
  else if assetId ∈ self.assets then
    .error (.error s!"asset AssetId({assetId.val}) already exists")
  else self._insertAsset perm assetId amount

/-- `update_asset`, with the previous amount. -/
def updateAsset (self : AccountStateTree) (assetId : F) (amount : U256) :
    Except Failure (AccountStateTree × U256) :=
  if assetId = 0 then .error (.error "updating the default asset id (0) is not allowed")
  else
    match self.assets.lookup assetId with
    | none => .error (.error s!"asset AssetId({assetId.val}) not found")
    | some (i, prevAmount) => do
      let tree ← updateResult
        (self.tree.updateLeaf (hashOutput perm) i (leafCommitment perm assetId amount))
      return ({ tree := tree, assets := self.assets.insert assetId (i, amount) }, prevAmount)

/-- `insert_or_update_asset`; both calls are unwrapped. -/
def insertOrUpdateAsset (self : AccountStateTree) (assetId : F) (amount : U256) :
    Except Failure (AccountStateTree × Option U256) :=
  if assetId ∈ self.assets then do
    let updated ← unwrap (self.updateAsset perm assetId amount)
    return (updated.1, some updated.2)
  else do
    let inserted ← unwrap (self.insertAsset perm assetId amount)
    return (inserted, none)

def amountFor (self : AccountStateTree) (assetId : F) : Option (ℕ × U256) :=
  self.assets.lookup assetId

/-- The check of `new_from_asset_map` on the sorted entries, counted from `expected`. -/
def checkContiguous : ℕ → List (Sigma fun _ : F => ℕ × U256) → Except Failure Unit
  | _, [] => .ok ()
  | expected, entry :: entries =>
    if entry.2.1 = expected then checkContiguous (expected + 1) entries
    else .error (.error
      s!"leaf_index sequence is not contiguous: expected {expected}, got {entry.2.1}")

/-- The entries in the order of their leaf indices. -/
def sortedEntries (map : AssetMap) : List (Sigma fun _ : F => ℕ × U256) :=
  map.entries.mergeSort fun a b => a.2.1 ≤ b.2.1

def newFromAssetMap (map : AssetMap) : Except Failure AccountStateTree := do
  checkContiguous 0 (sortedEntries map)
  let ast ← new perm
  (sortedEntries map).foldlM (fun ast entry => ast.insertAsset perm entry.1 entry.2.2) ast

end AccountStateTree

end AccountStateTree

/-! ## Accounts -/

/-- The coordinates of a compressed public key. -/
abbrev CompressedPublicKey := Fin 5 → F

structure SpendAuth where
  spendPk : Option CompressedPublicKey

def SpendAuth.default : SpendAuth := ⟨none⟩

def SpendAuth.pkOrDefault (self : SpendAuth) : CompressedPublicKey :=
  self.spendPk.getD DEFAULT_SPEND_AUTH_PK

structure ConsumeAuth where
  config : Bool
  pk : Option CompressedPublicKey

def ConsumeAuth.default : ConsumeAuth := ⟨false, none⟩

def ConsumeAuth.pkOrDefault (self : ConsumeAuth) : CompressedPublicKey :=
  self.pk.getD DEFAULT_ACC_COMM_CONSUME_PK_PLACEHOLDER

structure StandardAccount where
  privateIdentifier : Fin 2 → F
  subpoolId : F
  nonce : F
  spendAuth : SpendAuth
  consumeAuth : ConsumeAuth
  ast : AccountStateTree

structure AccountAddress where
  subpoolId : F
  publicId : HashOut
  deriving DecidableEq

def AccountAddress.default : AccountAddress := ⟨0, 0⟩

namespace StandardAccount

variable (perm : State → State)

/-- `new_with`, and `sample` for the identifier it draws. -/
def newWith (privateIdentifier : Fin 2 → F) (subpoolId : F) : Except Failure StandardAccount := do
  let ast ← AccountStateTree.new perm
  return { privateIdentifier := privateIdentifier, subpoolId := subpoolId, nonce := 0,
           spendAuth := .default, consumeAuth := .default, ast := ast }

def cloneWithIncrementedNonce (self : StandardAccount) : StandardAccount :=
  { self with nonce := self.nonce + 1 }

def publicId (self : StandardAccount) : HashOut :=
  hashNoPad perm (DS_PUBLIC_IDENTIFIER :: List.ofFn self.privateIdentifier)

def nk (self : StandardAccount) : HashOut :=
  hashNoPad perm (DS_NULLIFIER_KEY :: List.ofFn self.privateIdentifier)

/-- The spend key as the commitment absorbs it. -/
def spendPart (self : StandardAccount) : List F :=
  match self.spendAuth.spendPk with
  | some spendPk => List.ofFn spendPk
  | none => List.ofFn DEFAULT_SPEND_AUTH_PK

/-- The flag and the consume key as the commitment absorbs them. -/
def consumePart (self : StandardAccount) : Except Failure (List F) :=
  if self.consumeAuth.config then
    match self.consumeAuth.pk with
    | some pk => .ok (1 :: List.ofFn pk)
    | none => .error .panic
  else .ok (0 :: List.ofFn DEFAULT_ACC_COMM_CONSUME_PK_PLACEHOLDER)

/-- The input of `commitment`. -/
def commitmentInput (self : StandardAccount) : Except Failure (List F) := do
  let root ← self.ast.root perm
  let consume ← self.consumePart
  return List.ofFn self.privateIdentifier ++ [self.subpoolId] ++ List.ofFn root ++ [self.nonce] ++
    self.spendPart ++ consume

def commitment (self : StandardAccount) : Except Failure HashOut := do
  let inp ← self.commitmentInput perm
  return hashNoPad perm inp

def nullifier (self : StandardAccount) : Except Failure HashOut := do
  let commitment ← self.commitment perm
  return hashNoPad perm (List.ofFn commitment ++ List.ofFn (self.nk perm))

/-- `AccountAddress::from_acc`. -/
def address (self : StandardAccount) : AccountAddress := ⟨self.subpoolId, self.publicId perm⟩

end StandardAccount

/-! ## Addresses as text -/

/-- `to_canonical_u64().to_le_bytes()`. -/
def fToBytes (f : F) : List Byte := leBytes 8 f.val

/-- `from_canonical_u64(u64::from_le_bytes(..))`. -/
def bytesToF (b : List Byte) : F := (ofLeBytes b : F)

theorem bytesToF_fToBytes (f : F) : bytesToF (fToBytes f) = f := by
  rw [bytesToF, fToBytes, ofLeBytes_leBytes_of_lt (val_lt_word f)]
  exact ZMod.natCast_zmod_val f

def AccountAddress.toBytes (self : AccountAddress) : List Byte :=
  fToBytes self.subpoolId ++ (List.ofFn self.publicId).flatMap fToBytes

def AccountAddress.toHex (self : AccountAddress) : String := hexEncode self.toBytes

def AccountAddress.fromBytes (bytes : List Byte) : Except Failure AccountAddress :=
  if bytes.length = 40 then
    .ok { subpoolId := bytesToF (slice bytes 0 8)
          publicId := fun i => bytesToF (slice bytes (8 + i.val * 8) 8) }
  else .error (.error s!"expected 40 bytes, got {bytes.length}")

def AccountAddress.fromHex (s : String) : Except Failure AccountAddress :=
  if s.utf8ByteSize = 80 then
    match hexDecode s with
    | some bytes => AccountAddress.fromBytes bytes
    | none => .error (.error "Invalid hex")
  else .error (.error s!"expected 80 hex chars, got {s.utf8ByteSize}")

/-! ## Transaction hashes -/

/-- `H160`, twenty bytes. -/
abbrev H160 := Fin 20 → Byte

/-- `map_h160_to_f`: five limbs of four bytes each. -/
def mapH160ToF (v : H160) : Fin 5 → F := fun i =>
  (ofLeBytes (slice (List.ofFn v) (4 * i.val) 4) : F)

variable (perm : State → State)

def derivePrivTxHash (accinNull accoutComm : HashOut) (inotesNull onotesComm : Fin NOTE_BATCH → HashOut) :
    HashOut :=
  hashNoPad perm (List.ofFn accinNull ++ List.ofFn accoutComm ++
    (List.ofFn inotesNull).flatMap List.ofFn ++ (List.ofFn onotesComm).flatMap List.ofFn)

def deriveDepositTxHash (accinNull accoutComm depositNoteComm : HashOut) (ethAdrs : H160) : HashOut :=
  hashNoPad perm (List.ofFn accinNull ++ List.ofFn accoutComm ++ List.ofFn depositNoteComm ++
    List.ofFn (mapH160ToF ethAdrs))

def deriveWithdrawTxHash (accinNull accoutComm : HashOut) (assetIds : Fin NOTE_BATCH → F)
    (amounts : Fin NOTE_BATCH → U256) (wAccAddr : H160) : HashOut :=
  hashNoPad perm (List.ofFn accinNull ++ List.ofFn accoutComm ++ List.ofFn assetIds ++
    (List.ofFn amounts).flatMap amountLimbs ++ List.ofFn (mapH160ToF wAccAddr))

end Doxa.Client
