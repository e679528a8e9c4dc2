import Doxa.Client.AssetTree
import Doxa.Hash.Poseidon
import Doxa.Trees.Batch

/-!
# Sequences of calls on the asset tree

The calls in place, with the tree and the map a failed one leaves. An insertion needs a new asset
and a free leaf, an update a known one, and the default asset is refused by both; nothing else
fails, so that a failed call has changed neither copy. After any sequence of calls the map and
the leaves determine each other (`asset_tree_invariant`): every leaf belongs to one asset, and a
leaf that opens to another asset or amount is a collision of the hash.
-/

namespace Doxa.Client

open Lib Circuit Trees
open Contract (U256)

/-! ## Limbs of an amount -/

theorem halves_injective {w w' : BitVec 64} (hlo : lo32 w = lo32 w') (hhi : hi32 w = hi32 w') :
    w = w' := by
  have hsmall : ∀ x y : BitVec 32, (x.toNat : F) = (y.toNat : F) → x.toNat = y.toNat := by
    intro x y h
    have hval := congrArg ZMod.val h
    rwa [ZMod.val_natCast_of_lt (x.isLt.trans (by decide)),
      ZMod.val_natCast_of_lt (y.isLt.trans (by decide))] at hval
  have hlow := hsmall _ _ hlo
  have hhigh := hsmall _ _ hhi
  rw [BitVec.toNat_setWidth, BitVec.toNat_setWidth] at hlow
  rw [BitVec.toNat_setWidth, BitVec.toNat_setWidth, BitVec.toNat_ushiftRight,
    BitVec.toNat_ushiftRight, Nat.shiftRight_eq_div_pow, Nat.shiftRight_eq_div_pow] at hhigh
  have hw := w.isLt
  have hw' := w'.isLt
  refine BitVec.eq_of_toNat_eq ?_
  omega

theorem amountLimbs_injective : Function.Injective amountLimbs := by
  intro x y h
  have hword : ∀ i < 4, word x i = word y i := by
    have hlist : (List.range 4).flatMap (fun i => [lo32 (word x i), hi32 (word x i)]) =
        (List.range 4).flatMap fun i => [lo32 (word y i), hi32 (word y i)] := h
    simp only [List.range_succ, List.range_zero, List.nil_append,
      List.flatMap_cons, List.flatMap_nil, List.append_nil, List.cons_append, List.cons.injEq,
      and_true] at hlist
    obtain ⟨h0, h0', h1, h1', h2, h2', h3, h3'⟩ := hlist
    intro i hi
    interval_cases i
    · exact halves_injective h0 h0'
    · exact halves_injective h1 h1'
    · exact halves_injective h2 h2'
    · exact halves_injective h3 h3'
  rw [← ofWords_word x, ← ofWords_word y, ofWords, ofWords,
    littleEndian_congr fun i hi => congrArg BitVec.toNat (hword i hi)]

namespace AccountStateTree

variable {perm : State → State}

/-! ## Which calls succeed -/

theorem Mirrors.numLeaves {ast : AccountStateTree} {ds : List HashOut} (hm : Mirrors perm ast ds) :
    ast.tree.numLeaves = ds.length := by
  rw [MerkleTree.numLeaves, hm.tree.leaves]

section Success

variable {ast : AccountStateTree} {ds : List HashOut} {assetId : F} {amount : U256}

theorem Mirrors.treeInsert_ok (hm : Mirrors perm ast ds) (hroom : ds.length < 2 ^ ACC_AST_DEPTH)
    (x : HashOut) : ∃ t, ast.tree.insert (hashOutput perm) x = .ok (t, ds.length) := by
  obtain ⟨t, hins, -⟩ := insert_represents (hashOutput_lawful perm) hm.tree hroom x
  exact ⟨t, hins⟩

theorem Mirrors.treeInsert_full (hm : Mirrors perm ast ds) (hfull : 2 ^ ACC_AST_DEPTH ≤ ds.length)
    (x : HashOut) : ast.tree.insert (hashOutput perm) x = .error .fullTree := by
  unfold MerkleTree.insert
  rw [hm.numLeaves, MerkleTree.depth, hm.tree.depth_eq, Nat.one_shiftLeft, if_pos hfull]

theorem Mirrors._insertAsset_iff (hm : Mirrors perm ast ds) :
    (∃ ast', ast._insertAsset perm assetId amount = .ok ast') ↔ ds.length < 2 ^ ACC_AST_DEPTH := by
  constructor
  · rintro ⟨ast', h⟩
    obtain ⟨t, i, hins, -⟩ := _insertAsset_eq_ok h
    exact (insert_cases hm.tree hins).1
  · intro hroom
    obtain ⟨t, hins⟩ := hm.treeInsert_ok hroom (leafCommitment perm assetId amount)
    exact ⟨_, bind_eq_ok.mpr ⟨(t, ds.length), by rw [hins]; rfl, rfl⟩⟩

theorem Mirrors.insertAsset_iff (hm : Mirrors perm ast ds) :
    (∃ ast', ast.insertAsset perm assetId amount = .ok ast') ↔
      assetId ≠ 0 ∧ assetId ∉ ast.assets ∧ ds.length < 2 ^ ACC_AST_DEPTH := by
  constructor
  · rintro ⟨ast', h⟩
    obtain ⟨h0, hfresh, hins⟩ := insertAsset_eq_ok h
    exact ⟨h0, hfresh, hm._insertAsset_iff.mp ⟨ast', hins⟩⟩
  · rintro ⟨h0, hfresh, hroom⟩
    rw [AccountStateTree.insertAsset, if_neg h0, if_neg hfresh]
    exact hm._insertAsset_iff.mpr hroom

theorem Mirrors.updateAsset_iff (hm : Mirrors perm ast ds) :
    (∃ r, ast.updateAsset perm assetId amount = .ok r) ↔ assetId ≠ 0 ∧ assetId ∈ ast.assets := by
  unfold AccountStateTree.updateAsset
  by_cases h0 : assetId = 0
  · simp only [h0, if_true, reduceCtorEq, exists_false, ne_eq, not_true_eq_false, false_and]
  rw [if_neg h0]
  cases hlookup : ast.assets.lookup assetId with
  | none =>
    have hfresh := AList.lookup_eq_none.mp hlookup
    exact ⟨fun ⟨r, hr⟩ => absurd hr (by simp only [reduceCtorEq, not_false_eq_true]),
      fun h => absurd h.2 hfresh⟩
  | some entry =>
    refine ⟨fun _ => ⟨h0, AList.lookup_isSome.mp (by rw [hlookup]; rfl)⟩, fun _ => ?_⟩
    have hi := (List.getElem?_eq_some_iff.mp
      (hm.leaf ⟨assetId, entry⟩ (AList.mem_lookup_iff.mp hlookup))).1
    obtain ⟨t, ht, -⟩ := updateLeaf_represents (hashOutput_lawful perm) hm.tree hi
      (leafCommitment perm assetId amount)
    exact ⟨_, bind_eq_ok.mpr ⟨t, by rw [ht]; rfl, rfl⟩⟩

/-- The default asset is known, but neither inserted nor updated. -/
theorem Mirrors.insertOrUpdateAsset_iff (hm : Mirrors perm ast ds) :
    (∃ r, ast.insertOrUpdateAsset perm assetId amount = .ok r) ↔
      assetId ≠ 0 ∧ (assetId ∈ ast.assets ∨ ds.length < 2 ^ ACC_AST_DEPTH) := by
  unfold AccountStateTree.insertOrUpdateAsset
  by_cases hmem : assetId ∈ ast.assets
  · rw [if_pos hmem]
    constructor
    · rintro ⟨r, hr⟩
      obtain ⟨u, hu, -⟩ := bind_eq_ok.mp hr
      exact ⟨(hm.updateAsset_iff.mp ⟨u, unwrap_eq_ok.mp hu⟩).1, .inl hmem⟩
    · rintro ⟨h0, -⟩
      obtain ⟨u, hu⟩ := hm.updateAsset_iff.mpr ⟨h0, hmem⟩
      exact ⟨_, bind_eq_ok.mpr ⟨u, unwrap_eq_ok.mpr hu, rfl⟩⟩
  · rw [if_neg hmem]
    constructor
    · rintro ⟨r, hr⟩
      obtain ⟨u, hu, -⟩ := bind_eq_ok.mp hr
      obtain ⟨h0, -, hroom⟩ := hm.insertAsset_iff.mp ⟨u, unwrap_eq_ok.mp hu⟩
      exact ⟨h0, .inr hroom⟩
    · rintro ⟨h0, hknown⟩
      obtain ⟨u, hu⟩ := hm.insertAsset_iff.mpr ⟨h0, hmem, hknown.resolve_left hmem⟩
      exact ⟨_, bind_eq_ok.mpr ⟨u, unwrap_eq_ok.mpr hu, rfl⟩⟩

end Success

/-! ## The calls in place -/

section InPlace

variable (perm)

/-- `_insert_asset`, with the copies it leaves. -/
def _insertAssetInPlace (self : AccountStateTree) (assetId : F) (amount : U256) :
    Except Failure Unit × AccountStateTree :=
  let index := self.tree.numLeaves
  match self.tree.insertInPlace (hashOutput perm) (leafCommitment perm assetId amount) with
  | (.ok _, tree) => (.ok (), { tree := tree, assets := self.assets.insert assetId (index, amount) })
  | (.error e, tree) => (treeResult (.error e), { self with tree := tree })

def insertAssetInPlace (self : AccountStateTree) (assetId : F) (amount : U256) :
    Except Failure Unit × AccountStateTree :=
  if assetId = 0 then (.error (.error "inserting the default asset id (0) is not allowed"), self)
  else if assetId ∈ self.assets then
    (.error (.error s!"asset AssetId({assetId.val}) already exists"), self)
  else self._insertAssetInPlace perm assetId amount

def updateAssetInPlace (self : AccountStateTree) (assetId : F) (amount : U256) :
    Except Failure U256 × AccountStateTree :=
  if assetId = 0 then (.error (.error "updating the default asset id (0) is not allowed"), self)
  else
    match self.assets.lookup assetId with
    | none => (.error (.error s!"asset AssetId({assetId.val}) not found"), self)
    | some (index, prevAmount) =>
      match self.tree.updateLeafInPlace (hashOutput perm) index
        (leafCommitment perm assetId amount) with
      | (.ok _, tree) =>
        (.ok prevAmount, { tree := tree, assets := self.assets.insert assetId (index, amount) })
      | (.error e, tree) => (updateResult (.error e), { self with tree := tree })

def insertOrUpdateAssetInPlace (self : AccountStateTree) (assetId : F) (amount : U256) :
    Except Failure (Option U256) × AccountStateTree :=
  if assetId ∈ self.assets then
    let updated := self.updateAssetInPlace perm assetId amount
    (unwrap (updated.1.map some), updated.2)
  else
    let inserted := self.insertAssetInPlace perm assetId amount
    (unwrap (inserted.1.map fun _ => none), inserted.2)

/-- A call on the tree. -/
inductive AssetCall
  | insertAsset (assetId : F) (amount : U256)
  | updateAsset (assetId : F) (amount : U256)
  | insertOrUpdateAsset (assetId : F) (amount : U256)

def callInPlace (self : AccountStateTree) : AssetCall → Except Failure (Option U256) × AccountStateTree
  | .insertAsset assetId amount =>
    let called := self.insertAssetInPlace perm assetId amount
    (called.1.map fun _ => none, called.2)
  | .updateAsset assetId amount =>
    let called := self.updateAssetInPlace perm assetId amount
    (called.1.map some, called.2)
  | .insertOrUpdateAsset assetId amount => self.insertOrUpdateAssetInPlace perm assetId amount

/-- The calls one after the other, whatever they return. -/
def run (self : AccountStateTree) (cs : List AssetCall) : AccountStateTree :=
  cs.foldl (fun ast c => (ast.callInPlace perm c).2) self

end InPlace

/-- The call returned nothing but a failure. -/
def Failed {α : Type} (r : Except Failure α) : Prop := ∀ a, r ≠ .ok a

theorem failed_error {α : Type} (e : Failure) : Failed (.error e : Except Failure α) := fun a h => by
  cases h

theorem failed_map {α β : Type} {r : Except Failure α} {f : α → β} : Failed (r.map f) ↔ Failed r := by
  cases r with
  | ok a => exact ⟨fun h => absurd rfl (h (f a)), fun h => absurd rfl (h a)⟩
  | error e => exact ⟨fun _ => failed_error e, fun _ => failed_error e⟩

theorem failed_unwrap {α : Type} {r : Except Failure α} : Failed (unwrap r) ↔ Failed r := by
  cases r with
  | ok a => exact Iff.rfl
  | error e => exact ⟨fun _ => failed_error e, fun _ => failed_error _⟩

section Step

variable {ast : AccountStateTree} {ds : List HashOut} {assetId : F} {amount : U256}

/-- What a call leaves: copies that agree again, and the old ones after a failure. -/
structure Left (perm : State → State) {α : Type} (ast : AccountStateTree)
    (called : Except Failure α × AccountStateTree) : Prop where
  agree : ∃ ds, Mirrors perm called.2 ds
  unchanged : Failed called.1 → called.2 = ast

theorem Left.refused {α : Type} (hm : Mirrors perm ast ds) (e : Failure) :
    Left perm ast ((.error e : Except Failure α), ast) :=
  ⟨⟨ds, hm⟩, fun _ => rfl⟩

theorem Left.map {α β : Type} {called : Except Failure α × AccountStateTree}
    (h : Left perm ast called) (f : α → β) : Left perm ast (called.1.map f, called.2) :=
  ⟨h.agree, fun hfailed => h.unchanged (failed_map.mp hfailed)⟩

theorem Left.unwrap {α : Type} {called : Except Failure α × AccountStateTree}
    (h : Left perm ast called) : Left perm ast (Client.unwrap called.1, called.2) :=
  ⟨h.agree, fun hfailed => h.unchanged (failed_unwrap.mp hfailed)⟩

/-- A full tree refuses the leaf before the map is written. -/
theorem Mirrors.left_insert (hm : Mirrors perm ast ds) (hfresh : assetId ∉ ast.assets) :
    Left perm ast (ast._insertAssetInPlace perm assetId amount) := by
  unfold _insertAssetInPlace
  by_cases hroom : ds.length < 2 ^ ACC_AST_DEPTH
  · obtain ⟨t, hins⟩ := hm.treeInsert_ok hroom (leafCommitment perm assetId amount)
    simp only [insertInPlace_of_insert hins]
    refine ⟨⟨ds ++ [leafCommitment perm assetId amount], hm._insertAsset hfresh ?_⟩,
      fun hfailed => absurd rfl (hfailed ())⟩
    exact bind_eq_ok.mpr ⟨(t, ds.length), by rw [hins]; rfl, rfl⟩
  · have hfull : ast.tree.insertInPlace (hashOutput perm) (leafCommitment perm assetId amount) =
        (.error .fullTree, ast.tree) := by
      unfold MerkleTree.insertInPlace
      rw [hm.numLeaves, MerkleTree.depth, hm.tree.depth_eq, Nat.one_shiftLeft,
        if_pos (Nat.le_of_not_lt hroom)]
    simp only [hfull]
    exact .refused hm _

theorem Mirrors.left_insertAsset (hm : Mirrors perm ast ds) :
    Left perm ast (ast.insertAssetInPlace perm assetId amount) := by
  unfold insertAssetInPlace
  split
  · exact .refused hm _
  split
  · exact .refused hm _
  · rename_i hfresh
    exact hm.left_insert hfresh

/-- A known asset has a leaf, which can be overwritten. -/
theorem Mirrors.left_updateAsset (hm : Mirrors perm ast ds) :
    Left perm ast (ast.updateAssetInPlace perm assetId amount) := by
  unfold updateAssetInPlace
  split
  · exact .refused hm _
  rename_i h0
  split
  · exact .refused hm _
  rename_i index prevAmount hlookup
  have hi := (List.getElem?_eq_some_iff.mp
    (hm.leaf ⟨assetId, (index, prevAmount)⟩ (AList.mem_lookup_iff.mp hlookup))).1
  obtain ⟨t, ht, -⟩ := updateLeaf_represents (hashOutput_lawful perm) hm.tree hi
    (leafCommitment perm assetId amount)
  simp only [updateLeafInPlace_of_updateLeaf ht]
  have hcall : ast.updateAsset perm assetId amount =
      .ok ({ tree := t, assets := ast.assets.insert assetId (index, amount) }, prevAmount) := by
    rw [AccountStateTree.updateAsset, if_neg h0, hlookup]
    exact bind_eq_ok.mpr ⟨t, by rw [ht]; rfl, rfl⟩
  exact ⟨hm.updateAsset hcall, fun hfailed => absurd rfl (hfailed prevAmount)⟩

theorem Mirrors.left_call (hm : Mirrors perm ast ds) (c : AssetCall) :
    Left perm ast (ast.callInPlace perm c) := by
  cases c with
  | insertAsset assetId amount => exact hm.left_insertAsset.map _
  | updateAsset assetId amount => exact hm.left_updateAsset.map _
  | insertOrUpdateAsset assetId amount =>
    show Left perm ast (ast.insertOrUpdateAssetInPlace perm assetId amount)
    unfold insertOrUpdateAssetInPlace
    split
    · exact (hm.left_updateAsset.map some).unwrap
    · exact (hm.left_insertAsset.map fun _ => none).unwrap

theorem Mirrors.run (hm : Mirrors perm ast ds) (cs : List AssetCall) :
    ∃ ds', Mirrors perm (ast.run perm cs) ds' := by
  induction cs generalizing ast ds with
  | nil => exact ⟨ds, hm⟩
  | cons c cs ih =>
    obtain ⟨ds₁, hm₁⟩ := (hm.left_call c).agree
    exact ih hm₁

end Step

/-! ## The invariant -/

/-- Two leaves with one commitment. -/
def LeafCollision (perm : State → State) (assetId assetId' : F) (amount amount' : U256) : Prop :=
  Collision perm (DS_ACC_AST_LEAF :: assetId :: amountLimbs amount)
    (DS_ACC_AST_LEAF :: assetId' :: amountLimbs amount')

/-- The map and the leaves are two copies of one state. -/
structure Invariant (perm : State → State) (ast : AccountStateTree) : Prop where
  index : ∀ assetId i amount, ast.amountFor assetId = some (i, amount) → i < ast.tree.numLeaves
  owner : ∀ i < ast.tree.numLeaves, ∃! assetId, ∃ amount, ast.amountFor assetId = some (i, amount)
  leaf : ∀ assetId i amount, ast.amountFor assetId = some (i, amount) →
    ast.tree.leaves[i]? = some (leafCommitment perm assetId amount)
  entry : ∀ assetId i amount, ast.tree.leaves[i]? = some (leafCommitment perm assetId amount) →
    ast.amountFor assetId = some (i, amount) ∨
      ∃ assetId' amount', ast.amountFor assetId' = some (i, amount') ∧
        LeafCollision perm assetId' assetId amount' amount
  root : ast.root perm = .ok (Lib.node (hashOutput perm).node
    ((hashOutput perm).leafOf ast.tree.leaves) ACC_AST_DEPTH 0)

theorem leafCommitment_eq_iff {assetId assetId' : F} {amount amount' : U256} :
    leafCommitment perm assetId amount = leafCommitment perm assetId' amount' ↔
      (assetId = assetId' ∧ amount = amount') ∨
        LeafCollision perm assetId assetId' amount amount' := by
  rw [leafCommitment, leafCommitment, hashNoPad_eq_iff, List.cons.injEq, List.cons.injEq,
    amountLimbs_injective.eq_iff]
  simp only [true_and, LeafCollision]

theorem Mirrors.invariant {ast : AccountStateTree} {ds : List HashOut} (hm : Mirrors perm ast ds) :
    Invariant perm ast := by
  have hindex : ∀ assetId i amount, ast.amountFor assetId = some (i, amount) →
      ds[i]? = some (leafCommitment perm assetId amount) := fun assetId i amount h =>
    hm.leaf ⟨assetId, (i, amount)⟩ (AList.mem_lookup_iff.mp h)
  have howner : ∀ i < ds.length, ∃ assetId amount, ast.amountFor assetId = some (i, amount) := by
    intro i hi
    obtain ⟨⟨assetId, j, amount⟩, he, rfl⟩ := hm.exists_entry hi
    exact ⟨assetId, amount, AList.mem_lookup_iff.mpr he⟩
  have hunique : ∀ assetId assetId' i amount amount', ast.amountFor assetId = some (i, amount) →
      ast.amountFor assetId' = some (i, amount') → assetId = assetId' := by
    intro assetId assetId' i amount amount' h h'
    have hsame := hm.entry_unique (AList.mem_lookup_iff.mp h) (AList.mem_lookup_iff.mp h') rfl
    exact congrArg Sigma.fst hsame
  refine {
    index := fun assetId i amount h => ?_
    owner := fun i hi => ?_
    leaf := fun assetId i amount h => ?_
    entry := fun assetId i amount h => ?_
    root := ?_ }
  · rw [hm.numLeaves]
    exact (List.getElem?_eq_some_iff.mp (hindex assetId i amount h)).1
  · rw [hm.numLeaves] at hi
    obtain ⟨assetId, amount, hlookup⟩ := howner i hi
    refine ⟨assetId, ⟨amount, hlookup⟩, ?_⟩
    rintro assetId' ⟨amount', hlookup'⟩
    exact hunique _ _ _ _ _ hlookup' hlookup
  · rw [hm.tree.leaves]
    exact hindex assetId i amount h
  · rw [hm.tree.leaves] at h
    obtain ⟨assetId', amount', hlookup⟩ := howner i (List.getElem?_eq_some_iff.mp h).1
    have hleaf := hindex _ _ _ hlookup
    rw [h, Option.some.injEq, eq_comm, leafCommitment_eq_iff] at hleaf
    rcases hleaf with ⟨rfl, rfl⟩ | hcollision
    · exact .inl hlookup
    · exact .inr ⟨assetId', amount', hlookup, hcollision⟩
  · rw [hm.root, hm.tree.leaves]

/-- After any calls on a new tree, failed ones among them, the map and the leaves are two copies
of one state, and the next call keeps both if it fails. -/
theorem asset_tree_invariant (perm : State → State) {ast : AccountStateTree}
    (hnew : AccountStateTree.new perm = .ok ast) (cs : List AssetCall) :
    Invariant perm (ast.run perm cs) ∧
      ∀ c, Failed ((ast.run perm cs).callInPlace perm c).1 →
        ((ast.run perm cs).callInPlace perm c).2 = ast.run perm cs := by
  obtain ⟨ds, hm⟩ := (new_eq_ok hnew).run cs
  exact ⟨hm.invariant, fun c => (hm.left_call c).unchanged⟩

/-- An insertion, the same one again, an update of the default asset and one of the asset. -/
theorem asset_tree_invariant_sample : ∃ ast, AccountStateTree.new id = .ok ast ∧
    Invariant id (ast.run id [.insertAsset 5 100, .insertAsset 5 7, .updateAsset 0 1,
      .insertOrUpdateAsset 5 3]) := by
  obtain ⟨ast, hnew⟩ := new_ok id
  exact ⟨ast, hnew, (asset_tree_invariant id hnew _).1⟩

end AccountStateTree

end Doxa.Client
