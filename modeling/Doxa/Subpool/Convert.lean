import Doxa.Client.AssetTree
import Doxa.Client.Note

/-!
# Accounts as database rows

`account_to_insert` writes an account into the columns of the `accounts` table and
`account_from_row` reads one back. Identifiers and keys are little-endian bytes, some of
them as hexadecimal text, and the asset map is a JSON object keyed by the decimal asset id.
A database returns the fields of an object in an order of its own (`Stores`).

The other columns survive the round trip; the asset map does not. It lists the default
asset, which `AccountStateTree::new` has put at leaf `0`, and `new_from_asset_map` inserts
every listed asset by `insert_asset`, which refuses the default one. So no stored account
can be read back (`accountFromRow_stored`).
-/

namespace Doxa.Subpool

open Lib Client Circuit
open Contract (U256)

/-! ## JSON -/

/-- `serde_json::Value`, without fractional numbers. -/
inductive Json
  | null
  | bool (b : Bool)
  | number (n : ℕ)
  | str (s : String)
  | array (elements : List Json)
  | object (fields : List (String × Json))

namespace Json

def asObject : Json → Option (List (String × Json))
  | object fields => some fields
  | _ => none

/-- `val[key]`, null where there is nothing. -/
def index (val : Json) (key : String) : Json :=
  match val with
  | object fields => (fields.lookup key).getD null
  | _ => null

def asU64 : Json → Option ℕ
  | number n => some n
  | _ => none

def asStr : Json → Option String
  | str s => some s
  | _ => none

/-- `Map::insert`. -/
def insertField (fields : List (String × Json)) (key : String) (val : Json) : List (String × Json) :=
  if key ∈ fields.map Prod.fst then fields.map fun f => if f.1 = key then (key, val) else f
  else fields ++ [(key, val)]

end Json

/-! ## Columns -/

def privateIdToBytes (pi : Fin 2 → F) : List Byte := fToBytes (pi 0) ++ fToBytes (pi 1)

def bytesToPrivateId (b : List Byte) : Fin 2 → F :=
  ![bytesToF (slice b 0 8), bytesToF (slice b 8 8)]

def u256ToBytes (v : U256) : List Byte := (List.range 4).flatMap fun i => leBytes 8 (word v i).toNat

def bytesToU256 (b : List Byte) : U256 :=
  ofWords fun i => BitVec.ofNat 64 (ofLeBytes (slice b (i * 8) 8))

/-- `CompressedPublicKey::encode` and `decode`. -/
def encodeKey (pk : CompressedPublicKey) : List Byte := (List.ofFn pk).flatMap fToBytes
def decodeKey (bytes : List Byte) : CompressedPublicKey := fun i => bytesToF (slice bytes (i.val * 8) 8)

def zero40 : List Byte := List.replicate 40 0

/-- The columns of a new row. -/
structure AccountInsert where
  privateAccAddress : String
  ethAddress : String
  privateIdentifier : String
  subpoolId : List Byte
  nonce : List Byte
  spendAuth : List Byte
  consumeAuth : List Byte
  ast : Json

/-- The columns of a row that `account_from_row` reads. -/
structure AccountRow where
  privateAccAddress : String
  ethAddress : String
  privateIdentifier : String
  subpoolId : List Byte
  nonce : List Byte
  spendAuth : List Byte
  consumeAuth : List Byte
  ast : Json

/-- An entry of the asset map. -/
abbrev AssetEntry := Sigma fun _ : F => ℕ × U256

/-- The value of one entry. -/
def entryValue (entry : AssetEntry) : Json :=
  .object [("leaf_index", .number entry.2.1), ("amount", .str (hexEncode (u256ToBytes entry.2.2)))]

def astJson (assets : AssetMap) : List (String × Json) :=
  assets.entries.foldl
    (fun map entry => Json.insertField map (toString entry.1.val) (entryValue entry)) []

def spendColumn (auth : SpendAuth) : List Byte :=
  match auth.spendPk with
  | some pk => encodeKey pk
  | none => zero40

/-- The key with the flag set must be there. -/
def consumeColumn (auth : ConsumeAuth) : Except Failure (List Byte) :=
  if auth.config then
    match auth.pk with
    | some pk => .ok (encodeKey pk)
    | none => .error .panic
  else .ok zero40

variable (perm : State → State)

def accountToInsert (acc : StandardAccount) (ethAddress : String) : Except Failure AccountInsert := do
  let consumeAuth ← consumeColumn acc.consumeAuth
  return { privateAccAddress := (acc.address perm).toHex
           ethAddress := ethAddress
           privateIdentifier := hexEncode (privateIdToBytes acc.privateIdentifier)
           subpoolId := fToBytes acc.subpoolId
           nonce := fToBytes acc.nonce
           spendAuth := spendColumn acc.spendAuth
           consumeAuth := consumeAuth
           ast := .object (astJson acc.ast.assets) }

/-- `context(message)?`. -/
def orError {α : Type} (message : String) : Option α → Except Failure α
  | some a => .ok a
  | none => .error (.error message)

/-- `try_into` an array of length `n`. -/
def tryInto (n : ℕ) (message : String) (b : List Byte) : Except Failure (List Byte) :=
  if b.length = n then .ok b else .error (.error message)

/-- `AssetId::from_u64`. -/
def assetIdFromU64 (v : ℕ) : Except Failure F :=
  if v < ORDER then .ok (v : F)
  else .error (.error s!"AssetId value {v} is out of Goldilocks field range")

/-- One field of the object. -/
def readEntry (field : String × Json) : Except Failure AssetEntry := do
  let aid ← orError "invalid asset_id key in AST" (parseU64 field.1)
  let leafIndex ← orError "missing leaf_index in AST entry" (field.2.index "leaf_index").asU64
  let amountHex ← orError "missing amount in AST entry" (field.2.index "amount").asStr
  let amountBytes ← orError "invalid amount hex in AST" (hexDecode amountHex)
  let amountArr ← tryInto 32
    s!"AST amount for asset_id '{aid}' must be 32 bytes, got {amountBytes.length}" amountBytes
  let assetId ← assetIdFromU64 aid
  return ⟨assetId, (leafIndex, bytesToU256 amountArr)⟩

def readAssets (fields : List (String × Json)) : Except Failure AssetMap :=
  fields.foldlM (fun map field => do
    let entry ← readEntry field
    return map.insert entry.1 entry.2) ∅

def readSpendAuth (b : List Byte) : SpendAuth :=
  if b = zero40 then .default else ⟨some (decodeKey b)⟩

def accountFromRow (row : AccountRow) : Except Failure StandardAccount := do
  let piBytes ← orError "private_identifier must be valid hex" (hexDecode row.privateIdentifier)
  let piArr ← tryInto 16 "private_identifier must be 16 bytes" piBytes
  let subpoolIdArr ← tryInto 8 "subpool_id must be 8 bytes" row.subpoolId
  let acc ← StandardAccount.newWith perm (bytesToPrivateId piArr) (bytesToF subpoolIdArr)
  let nonceArr ← tryInto 8 "nonce must be 8 bytes" row.nonce
  let acc := { acc with nonce := bytesToF nonceArr }
  let spendPkBytes ← tryInto 40 "spend_auth must be 40 bytes" row.spendAuth
  let acc := { acc with spendAuth := readSpendAuth spendPkBytes }
  match row.ast.asObject with
  | some astObj => do
    let assetMap ← readAssets astObj
    let ast ← AccountStateTree.newFromAssetMap perm assetMap
    return { acc with ast := ast }
  | none => return acc

/-! ## Hashes -/

def hashToHex (h : HashOut) : String := hexEncode ((List.ofFn h).flatMap fToBytes)

/-- `hex_to_hash_checked`: the modulus itself is let through. -/
def hexToHashChecked (s : String) : Except Failure HashOut := do
  let bytes ← orError "invalid hex string" (hexDecode s)
  let arr ← tryInto 32 "hex_to_hash expects 32 bytes (64 hex chars)" bytes
  collect fun i : Fin 4 =>
    let val := ofLeBytes (slice arr (i.val * 8) 8)
    if val ≤ ORDER then .ok (val : F) else .error (.error s!"val: {val} > F::ORDER")

/-- The row holds the inserted columns; the fields of the object are in any order. -/
structure Stores (ins : AccountInsert) (row : AccountRow) : Prop where
  private_identifier : row.privateIdentifier = ins.privateIdentifier
  subpool_id : row.subpoolId = ins.subpoolId
  nonce : row.nonce = ins.nonce
  spend_auth : row.spendAuth = ins.spendAuth
  consume_auth : row.consumeAuth = ins.consumeAuth
  ast : ∃ fields fields', ins.ast = .object fields ∧ row.ast = .object fields' ∧ fields'.Perm fields

/-! ## The columns survive -/

theorem slice_append_left {α : Type*} {xs ys : List α} {n : ℕ} (h : xs.length = n) :
    slice (xs ++ ys) 0 n = xs := by
  rw [slice, List.drop_zero, List.take_left' h]

theorem slice_append_right {α : Type*} {xs ys : List α} {n m : ℕ} (h : xs.length = n)
    (h' : ys.length = m) : slice (xs ++ ys) n m = ys := by
  rw [slice, List.drop_left' h, List.take_of_length_le h'.le]

theorem fToBytes_length (f : F) : (fToBytes f).length = 8 := leBytes_length 8 f.val

theorem bytesToPrivateId_privateIdToBytes (pi : Fin 2 → F) :
    bytesToPrivateId (privateIdToBytes pi) = pi := by
  rw [bytesToPrivateId, privateIdToBytes, slice_append_left (fToBytes_length _),
    slice_append_right (fToBytes_length _) (fToBytes_length _), bytesToF_fToBytes,
    bytesToF_fToBytes]
  exact List.ofFn_injective rfl

theorem privateIdToBytes_length (pi : Fin 2 → F) : (privateIdToBytes pi).length = 16 := by
  rw [privateIdToBytes, List.length_append, fToBytes_length, fToBytes_length]

theorem u256ToBytes_length (v : U256) : (u256ToBytes v).length = 32 := by
  rw [u256ToBytes, length_flatMap_record (w := 8) fun i _ => leBytes_length 8 _, List.length_range]

theorem bytesToU256_u256ToBytes (v : U256) : bytesToU256 (u256ToBytes v) = v := by
  have hword : ∀ i < 4, BitVec.ofNat 64 (ofLeBytes (slice (u256ToBytes v) (i * 8) 8)) = word v i := by
    intro i hi
    have hslice : slice (u256ToBytes v) (i * 8) 8 = leBytes 8 (word v i).toNat :=
      slice_flatMap_record (fun j _ => leBytes_length 8 _) (List.getElem?_range hi)
    rw [hslice, ofLeBytes_leBytes_of_lt (word v i).isLt, BitVec.ofNat_toNat, BitVec.setWidth_eq]
  calc bytesToU256 (u256ToBytes v) = ofWords (word v) := by
        rw [bytesToU256, ofWords, ofWords,
          littleEndian_congr fun i hi => congrArg BitVec.toNat (hword i hi)]
    _ = v := ofWords_word v

theorem encodeKey_length (pk : CompressedPublicKey) : (encodeKey pk).length = 40 := by
  rw [encodeKey, length_flatMap_record (w := 8) fun f _ => fToBytes_length f, List.length_ofFn]

theorem decodeKey_encodeKey (pk : CompressedPublicKey) : decodeKey (encodeKey pk) = pk := by
  funext i
  have hget : (List.ofFn pk)[i.val]? = some (pk i) := by
    rw [List.getElem?_ofFn, dif_pos i.isLt]
  rw [decodeKey, encodeKey, slice_flatMap_record (fun f _ => fToBytes_length f) hget,
    bytesToF_fToBytes]

theorem spendColumn_length (auth : SpendAuth) : (spendColumn auth).length = 40 := by
  unfold spendColumn
  split
  · exact encodeKey_length _
  · rfl

theorem tryInto_eq_ok {n : ℕ} {message : String} {b : List Byte} (h : b.length = n) :
    tryInto n message b = .ok b := if_pos h

/-! ## The asset map survives the columns -/

theorem readEntry_entryValue (entry : AssetEntry) :
    readEntry (toString entry.1.val, entryValue entry) = .ok entry := by
  have hkey : parseU64 (toString entry.1.val) = some entry.1.val := parseU64_toString (val_lt_word _)
  have hid : assetIdFromU64 entry.1.val = .ok entry.1 := by
    rw [assetIdFromU64, if_pos (show entry.1.val < ORDER from ZMod.val_lt entry.1),
      ZMod.natCast_zmod_val]
  have hbytes : hexDecode (hexEncode (u256ToBytes entry.2.2)) = some (u256ToBytes entry.2.2) :=
    hexDecode_hexEncode _
  have hindex : ((entryValue entry).index "leaf_index").asU64 = some entry.2.1 := rfl
  have hamount : ((entryValue entry).index "amount").asStr =
      some (hexEncode (u256ToBytes entry.2.2)) := rfl
  simp only [readEntry, hkey, hindex, hamount, hbytes, hid, orError,
    tryInto_eq_ok (u256ToBytes_length _), bind, Except.bind, pure, Except.pure,
    bytesToU256_u256ToBytes]

theorem insertField_of_notMem {fields : List (String × Json)} {key : String} {val : Json}
    (h : key ∉ fields.map Prod.fst) : Json.insertField fields key val = fields ++ [(key, val)] :=
  if_neg h

theorem toString_val_injective {a b : F} (h : toString a.val = toString b.val) : a = b := by
  have hparse := congrArg parseU64 h
  rw [parseU64_toString (val_lt_word a), parseU64_toString (val_lt_word b)] at hparse
  exact ZMod.val_injective _ (Option.some.inj hparse)

/-- The object lists the entries. -/
theorem foldl_insertField {entries : List AssetEntry} (hnodup : entries.NodupKeys)
    {fields : List (String × Json)}
    (hfresh : ∀ e ∈ entries, toString e.1.val ∉ fields.map Prod.fst) :
    entries.foldl (fun map entry => Json.insertField map (toString entry.1.val) (entryValue entry))
        fields =
      fields ++ entries.map fun entry => (toString entry.1.val, entryValue entry) := by
  induction entries generalizing fields with
  | nil => simp
  | cons e entries ih =>
      rw [List.nodupKeys_cons] at hnodup
      rw [List.foldl_cons, insertField_of_notMem (hfresh e List.mem_cons_self)]
      rw [ih hnodup.2, List.map_cons, List.append_assoc, List.singleton_append]
      intro e' he' hmem
      rw [List.map_append, List.mem_append] at hmem
      rcases hmem with hmem | hmem
      · exact hfresh e' (List.mem_cons_of_mem e he') hmem
      · have heq : e'.1 = e.1 := toString_val_injective (List.mem_singleton.mp hmem)
        exact hnodup.1 (heq ▸ List.mem_keys_of_mem he')

theorem astJson_eq (assets : AssetMap) :
    astJson assets = assets.entries.map fun entry => (toString entry.1.val, entryValue entry) := by
  rw [astJson, foldl_insertField assets.nodupKeys (fun _ _ h => by simp at h), List.nil_append]

/-- The map of entries with distinct keys, inserted in order. -/
theorem foldl_insert_entries {entries : List AssetEntry} (hnodup : entries.NodupKeys)
    {map : AssetMap} (hfresh : ∀ e ∈ entries, e.1 ∉ map) :
    (entries.foldl (fun map entry => map.insert entry.1 entry.2) map).entries.Perm
      (entries ++ map.entries) := by
  induction entries generalizing map with
  | nil => exact List.Perm.refl _
  | cons e entries ih =>
      rw [List.nodupKeys_cons] at hnodup
      have hnext : ∀ e' ∈ entries, e'.1 ∉ map.insert e.1 e.2 := by
        intro e' he' hmem
        rw [AList.mem_insert] at hmem
        rcases hmem with heq | hmem
        · exact hnodup.1 (heq ▸ List.mem_keys_of_mem he')
        · exact hfresh e' (List.mem_cons_of_mem e he') hmem
      have hperm := ih hnodup.2 hnext
      rw [AList.entries_insert_of_notMem (hfresh e List.mem_cons_self)] at hperm
      exact hperm.trans List.perm_middle

theorem readAssets_eq {entries : List AssetEntry} (map : AssetMap) :
    (entries.map fun entry => (toString entry.1.val, entryValue entry)).foldlM
        (fun map field => do
          let entry ← readEntry field
          return map.insert entry.1 entry.2) map =
      (.ok (entries.foldl (fun map entry => map.insert entry.1 entry.2) map) :
        Except Failure AssetMap) := by
  induction entries generalizing map with
  | nil => rfl
  | cons e entries ih =>
      rw [List.map_cons, List.foldlM_cons, readEntry_entryValue]
      exact ih _

/-- A permutation of the listed fields lists a permutation of the entries. -/
theorem exists_entries_of_perm {entries : List AssetEntry} {fields : List (String × Json)}
    (h : fields.Perm (entries.map fun entry => (toString entry.1.val, entryValue entry))) :
    ∃ entries' : List AssetEntry, entries'.Perm entries ∧
      fields = entries'.map fun entry => (toString entry.1.val, entryValue entry) := by
  induction fields generalizing entries with
  | nil =>
      refine ⟨[], ?_, rfl⟩
      have hnil := List.map_eq_nil_iff.mp (List.nil_perm.mp h)
      rw [hnil]
  | cons field fields ih =>
      obtain ⟨e, he, rfl⟩ := List.mem_map.mp (h.subset List.mem_cons_self)
      obtain ⟨l₁, l₂, rfl⟩ := List.append_of_mem he
      have hmid := h.trans ((List.perm_middle.map _))
      rw [List.map_cons] at hmid
      obtain ⟨entries', hperm, rfl⟩ := ih hmid.cons_inv
      exact ⟨e :: entries', (hperm.cons e).trans List.perm_middle.symm, rfl⟩

/-- What is read back from the object of a map. -/
theorem readAssets_stored {assets : AssetMap} {fields : List (String × Json)}
    (h : fields.Perm (astJson assets)) :
    ∃ map, readAssets fields = .ok map ∧ map.entries.Perm assets.entries := by
  rw [astJson_eq] at h
  obtain ⟨entries', hperm, rfl⟩ := exists_entries_of_perm h
  refine ⟨_, readAssets_eq ∅, ?_⟩
  have hnodup : entries'.NodupKeys := (List.perm_nodupKeys hperm).mpr assets.nodupKeys
  have hfresh : ∀ e ∈ entries', e.1 ∉ (∅ : AssetMap) := fun e _ => AList.notMem_empty e.1
  have hentries := foldl_insert_entries hnodup hfresh
  rw [AList.empty_entries, List.append_nil] at hentries
  exact hentries.trans hperm

/-! ## The rebuilt tree -/

section Rebuild

variable {perm}

theorem sortedEntries_perm (map : AssetMap) :
    (AccountStateTree.sortedEntries map).Perm map.entries := List.mergeSort_perm _ _

/-- Sorted by leaf index, the entries of a map that fills the leaves stand at their places. -/
theorem sortedEntries_indices {map : AssetMap} {n : ℕ}
    (h : (map.entries.map AccountStateTree.leafIndex).Perm (List.range n)) :
    (AccountStateTree.sortedEntries map).map AccountStateTree.leafIndex = List.range n := by
  have hsorted : (AccountStateTree.sortedEntries map).Pairwise
      fun a b => AccountStateTree.leafIndex a ≤ AccountStateTree.leafIndex b := by
    have hpair : (AccountStateTree.sortedEntries map).Pairwise
        fun a b => decide (a.2.1 ≤ b.2.1) = true := by
      refine List.pairwise_mergeSort ?_ ?_ map.entries
      · intro a b c hab hbc
        exact decide_eq_true ((of_decide_eq_true hab).trans (of_decide_eq_true hbc))
      · intro a b
        rcases le_total a.2.1 b.2.1 with hab | hab
        · simp [hab]
        · simp [hab]
    exact hpair.imp fun hab => of_decide_eq_true hab
  have hperm : ((AccountStateTree.sortedEntries map).map AccountStateTree.leafIndex).Perm
      (List.range n) := ((sortedEntries_perm map).map _).trans h
  have hanti : ∀ a b : ℕ, a ∈ (AccountStateTree.sortedEntries map).map AccountStateTree.leafIndex →
      b ∈ List.range n → a ≤ b → b ≤ a → a = b := fun a b _ _ hab hba => le_antisymm hab hba
  exact hperm.eq_of_pairwise hanti (List.pairwise_map.mpr hsorted) List.pairwise_le_range

theorem checkContiguous_range {entries : List AssetEntry} {k : ℕ}
    (h : entries.map AccountStateTree.leafIndex = List.range' k entries.length) :
    AccountStateTree.checkContiguous k entries = .ok () := by
  induction entries generalizing k with
  | nil => rfl
  | cons e entries ih =>
      rw [List.map_cons, List.length_cons, List.range'_succ, List.cons.injEq] at h
      rw [AccountStateTree.checkContiguous, if_pos (show e.2.1 = k from h.1)]
      exact ih h.2

/-- A map that lists the default asset at leaf `0` and fills the leaves is refused when that
entry is inserted. -/
theorem newFromAssetMap_refused {ast : AccountStateTree} {ds : List HashOut}
    (hm : ast.Mirrors perm ds) {map : AssetMap} (hmap : map.entries.Perm ast.assets.entries) :
    AccountStateTree.newFromAssetMap perm map =
      .error (.error "inserting the default asset id (0) is not allowed") := by
  have hindices := sortedEntries_indices ((hmap.map _).trans hm.indices)
  have hdefault : (⟨0, (0, 0)⟩ : AssetEntry) ∈ ast.assets.entries := AList.mem_lookup_iff.mp hm.default
  have hlen : ds.length ≠ 0 := by
    have hleaf := (List.getElem?_eq_some_iff.mp (hm.leaf _ hdefault)).1
    exact Nat.ne_of_gt hleaf
  obtain ⟨m, hm'⟩ := Nat.exists_eq_succ_of_ne_zero hlen
  obtain ⟨e, entries, hsorted⟩ : ∃ e entries, AccountStateTree.sortedEntries map = e :: entries := by
    cases hlist : AccountStateTree.sortedEntries map with
    | nil => rw [hlist, hm'] at hindices; simp at hindices
    | cons e entries => exact ⟨e, entries, rfl⟩
  have hfirst : AccountStateTree.leafIndex e = 0 := by
    rw [hsorted, hm', List.map_cons, List.range_succ_eq_map, List.cons.injEq] at hindices
    exact hindices.1
  have he : e = ⟨0, (0, 0)⟩ := by
    have hmem : e ∈ ast.assets.entries := by
      refine hmap.subset ((sortedEntries_perm map).subset ?_)
      rw [hsorted]
      exact List.mem_cons_self
    exact hm.entry_unique hmem hdefault hfirst
  have hcheck : AccountStateTree.checkContiguous 0 (AccountStateTree.sortedEntries map) = .ok () := by
    refine checkContiguous_range ?_
    have hsize := congrArg List.length hindices
    rw [List.length_map, List.length_range] at hsize
    rw [hindices, hsize, List.range_eq_range']
  obtain ⟨ast₀, hnew⟩ := AccountStateTree.new_ok perm
  have hinsert : ast₀.insertAsset perm 0 0 =
      .error (.error "inserting the default asset id (0) is not allowed") := if_pos rfl
  rw [AccountStateTree.newFromAssetMap, hcheck, hnew, hsorted, he]
  simp only [List.foldlM_cons, hinsert, bind, Except.bind]

end Rebuild

/-! ## Reachable accounts -/

/-- The accounts reached from the constructors by changing balances, nonce and keys. -/
inductive Reachable : StandardAccount → Prop
  | newWith {privateIdentifier : Fin 2 → F} {subpoolId : F} {acc : StandardAccount} :
      StandardAccount.newWith perm privateIdentifier subpoolId = .ok acc → Reachable acc
  | insertAsset {acc : StandardAccount} {assetId : F} {amount : U256} {ast : AccountStateTree} :
      Reachable acc → acc.ast.insertAsset perm assetId amount = .ok ast →
      Reachable { acc with ast := ast }
  | updateAsset {acc : StandardAccount} {assetId : F} {amount prev : U256} {ast : AccountStateTree} :
      Reachable acc → acc.ast.updateAsset perm assetId amount = .ok (ast, prev) →
      Reachable { acc with ast := ast }
  | incrementNonce {acc : StandardAccount} :
      Reachable acc → Reachable acc.cloneWithIncrementedNonce
  | setSpendAuth {acc : StandardAccount} (auth : SpendAuth) :
      Reachable acc → Reachable { acc with spendAuth := auth }
  | setConsumeAuth {acc : StandardAccount} (auth : ConsumeAuth) :
      Reachable acc → Reachable { acc with consumeAuth := auth }

variable {perm}

theorem newWith_eq_ok {pi : Fin 2 → F} {sp : F} {acc : StandardAccount}
    (h : StandardAccount.newWith perm pi sp = .ok acc) : AccountStateTree.new perm = .ok acc.ast := by
  rw [StandardAccount.newWith, bind_eq_ok] at h
  obtain ⟨ast, hast, hacc⟩ := h
  rw [← pure_eq_ok.mp hacc]
  exact hast

theorem Reachable.ast {acc : StandardAccount} (h : Reachable perm acc) : acc.ast.Reachable perm := by
  induction h with
  | newWith h => exact .new (newWith_eq_ok h)
  | insertAsset _ h ih => exact ih.insertAsset h
  | updateAsset _ h ih => exact ih.updateAsset h
  | incrementNonce _ ih => exact ih
  | setSpendAuth _ _ ih => exact ih
  | setConsumeAuth _ _ ih => exact ih

theorem accountToInsert_eq_ok {acc : StandardAccount} {eth : String} {ins : AccountInsert}
    (h : accountToInsert perm acc eth = .ok ins) :
    ins.privateIdentifier = hexEncode (privateIdToBytes acc.privateIdentifier) ∧
      ins.subpoolId = fToBytes acc.subpoolId ∧ ins.nonce = fToBytes acc.nonce ∧
      ins.spendAuth = spendColumn acc.spendAuth ∧ ins.ast = .object (astJson acc.ast.assets) := by
  rw [accountToInsert, bind_eq_ok] at h
  obtain ⟨consume, -, hins⟩ := h
  rw [← pure_eq_ok.mp hins]
  exact ⟨rfl, rfl, rfl, rfl, rfl⟩

/-- Reading back a stored account gets through every column up to the asset map and then
fails. -/
theorem accountFromRow_stored {acc : StandardAccount} (h : acc.ast.Reachable perm) {eth : String}
    {ins : AccountInsert} (hins : accountToInsert perm acc eth = .ok ins) {row : AccountRow}
    (hrow : Stores ins row) :
    accountFromRow perm row =
      .error (.error "inserting the default asset id (0) is not allowed") := by
  obtain ⟨hpi, hsubpool, hnonce, hspend, hast⟩ := accountToInsert_eq_ok hins
  obtain ⟨fields, fields', hfields, hfields', hperm⟩ := hrow.ast
  obtain rfl : astJson acc.ast.assets = fields := by
    rw [hast] at hfields
    exact Json.object.inj hfields
  obtain ⟨map, hread, hentries⟩ := readAssets_stored hperm
  obtain ⟨ds, hm⟩ := h.mirrors
  have hmap := newFromAssetMap_refused hm hentries
  obtain ⟨ast₀, hnew⟩ := AccountStateTree.new_ok perm
  have hacc : ∀ (pi : Fin 2 → F) (sp : F), StandardAccount.newWith perm pi sp =
      .ok { privateIdentifier := pi, subpoolId := sp, nonce := 0, spendAuth := .default,
            consumeAuth := .default, ast := ast₀ } := by
    intro pi sp
    rw [StandardAccount.newWith, hnew]
    rfl
  have hpiBytes : orError "private_identifier must be valid hex"
      (hexDecode row.privateIdentifier) = .ok (privateIdToBytes acc.privateIdentifier) := by
    rw [hrow.private_identifier, hpi, hexDecode_hexEncode, orError]
  rw [accountFromRow, hpiBytes, ok_bind, tryInto_eq_ok (privateIdToBytes_length _), ok_bind,
    hrow.subpool_id, hsubpool, tryInto_eq_ok (fToBytes_length _), ok_bind, hacc, ok_bind,
    hrow.nonce, hnonce, tryInto_eq_ok (fToBytes_length _), ok_bind, hrow.spend_auth, hspend,
    tryInto_eq_ok (spendColumn_length _), ok_bind, hfields']
  simp only [Json.asObject]
  rw [hread, ok_bind, hmap]
  rfl

variable (perm) in
/-- The account is written and the row that holds it is read back with the same
commitment and nullifier. -/
def RoundTrips (acc : StandardAccount) (eth : String) (row : AccountRow) : Prop :=
  ∃ ins acc', accountToInsert perm acc eth = .ok ins ∧ Stores ins row ∧
    accountFromRow perm row = .ok acc' ∧ acc'.commitment perm = acc.commitment perm ∧
    acc'.nullifier perm = acc.nullifier perm

/-- No reachable account survives being stored: its row can be written unless the consume
key is missing, and reading any row that holds it is an error. -/
theorem stored_account_unreadable (perm : State → State) {acc : StandardAccount}
    (h : Reachable perm acc) (eth : String) :
    (∀ row, ¬ RoundTrips perm acc eth row) ∧
      (∀ ins row, accountToInsert perm acc eth = .ok ins → Stores ins row →
        accountFromRow perm row =
          .error (.error "inserting the default asset id (0) is not allowed")) ∧
      ((∃ ins, accountToInsert perm acc eth = .ok ins) ↔
        (acc.consumeAuth.config = true → acc.consumeAuth.pk ≠ none)) := by
  refine ⟨?_, fun ins row hins hrow => accountFromRow_stored h.ast hins hrow, ?_⟩
  · rintro row ⟨ins, acc', hins, hrow, hread, -, -⟩
    rw [accountFromRow_stored h.ast hins hrow] at hread
    cases hread
  · unfold accountToInsert consumeColumn
    obtain ⟨config, pk⟩ := acc.consumeAuth
    cases config with
    | false => simp [bind, Except.bind, pure, Except.pure]
    | true =>
        cases pk with
        | none => simp [bind, Except.bind]
        | some pk => simp [bind, Except.bind, pure, Except.pure]

/-- The empty account of subpool `0`. -/
theorem newWith_ok (perm : State → State) (pi : Fin 2 → F) (sp : F) :
    ∃ acc, StandardAccount.newWith perm pi sp = .ok acc ∧ acc.consumeAuth = .default := by
  obtain ⟨ast, hnew⟩ := AccountStateTree.new_ok perm
  refine ⟨⟨pi, sp, 0, .default, .default, ast⟩, ?_, rfl⟩
  rw [StandardAccount.newWith, hnew]
  rfl

theorem stored_account_unreadable_fresh : ∃ acc, Reachable id acc ∧
    (∀ row, ¬ RoundTrips id acc "0x" row) ∧
    ∃ ins, accountToInsert id acc "0x" = .ok ins := by
  obtain ⟨acc, hacc, hauth⟩ := newWith_ok id 0 0
  have hreach : Reachable id acc := .newWith hacc
  obtain ⟨hnever, -, hwrite⟩ := stored_account_unreadable id hreach "0x"
  refine ⟨acc, hreach, hnever, hwrite.mpr fun hconfig => ?_⟩
  rw [hauth] at hconfig
  cases hconfig

/-- The account `new_with([0, 0], 0)` is stored and cannot be read back. -/
theorem fresh_account_not_restored : ∃ acc ins row,
    StandardAccount.newWith id 0 0 = .ok acc ∧ accountToInsert id acc "0x" = .ok ins ∧
      Stores ins row ∧ ¬ ∃ acc', accountFromRow id row = .ok acc' := by
  obtain ⟨acc, hacc, hauth⟩ := newWith_ok id 0 0
  have hcolumn : consumeColumn acc.consumeAuth = .ok zero40 := by
    rw [hauth]
    rfl
  obtain ⟨ins, hins⟩ : ∃ ins, accountToInsert id acc "0x" = .ok ins := by
    rw [accountToInsert, hcolumn]
    exact ⟨_, rfl⟩
  obtain ⟨-, -, -, -, hast⟩ := accountToInsert_eq_ok hins
  have hstores : Stores ins ⟨ins.privateAccAddress, ins.ethAddress, ins.privateIdentifier,
      ins.subpoolId, ins.nonce, ins.spendAuth, ins.consumeAuth, ins.ast⟩ :=
    ⟨rfl, rfl, rfl, rfl, rfl, _, _, hast, hast, List.Perm.refl _⟩
  refine ⟨acc, ins, _, hacc, hins, hstores, ?_⟩
  rintro ⟨acc', hread⟩
  rw [accountFromRow_stored (Reachable.newWith hacc).ast hins hstores] at hread
  cases hread

end Doxa.Subpool
