import Doxa.Client.Account
import Mathlib.Data.List.Sort

/-!
# The asset tree and its map

Along every sequence of calls the tree and the map beside it tell the same story: the map
gives every leaf index below the number of leaves to one asset, the leaf there is the
commitment to that asset and its amount, and the default asset keeps leaf `0`
(`Reachable.mirrors`). So the root always exists and is a function of the map.
-/

namespace Doxa.Client

open Lib Circuit Trees
open Contract (U256)

namespace AccountStateTree

variable (perm : State → State)

/-- The asset trees the public functions build. -/
inductive Reachable : AccountStateTree → Prop
  | new {ast : AccountStateTree} : new perm = .ok ast → Reachable ast
  | newFromAssetMap {map : AssetMap} {ast : AccountStateTree} :
      newFromAssetMap perm map = .ok ast → Reachable ast
  | insertAsset {ast ast' : AccountStateTree} {assetId : F} {amount : U256} :
      Reachable ast → ast.insertAsset perm assetId amount = .ok ast' → Reachable ast'
  | updateAsset {ast ast' : AccountStateTree} {assetId : F} {amount prev : U256} :
      Reachable ast → ast.updateAsset perm assetId amount = .ok (ast', prev) → Reachable ast'

/-- The leaf index of an entry. -/
def leafIndex (entry : Sigma fun _ : F => ℕ × U256) : ℕ := entry.2.1

/-- The tree holds the leaves `ds` and the map describes them. -/
structure Mirrors (ast : AccountStateTree) (ds : List HashOut) : Prop where
  tree : Represents (hashOutput perm) ACC_AST_DEPTH ds ast.tree
  room : ds.length ≤ 2 ^ ACC_AST_DEPTH
  indices : (ast.assets.entries.map leafIndex).Perm (List.range ds.length)
  leaf : ∀ e ∈ ast.assets.entries, ds[e.2.1]? = some (leafCommitment perm e.1 e.2.2)
  default : ast.assets.lookup 0 = some (0, 0)

variable {perm}

theorem depth_pos : 0 < ACC_AST_DEPTH := by decide

/-- What a successful insertion into a represented tree did. -/
theorem insert_cases {t t' : MerkleTree HashOut} {ds : List HashOut} {x : HashOut} {i : ℕ}
    (ht : Represents (hashOutput perm) ACC_AST_DEPTH ds t)
    (h : treeResult (t.insert (hashOutput perm) x) = .ok (t', i)) :
    ds.length < 2 ^ ACC_AST_DEPTH ∧ Represents (hashOutput perm) ACC_AST_DEPTH (ds ++ [x]) t' := by
  have hroom : ds.length < 2 ^ ACC_AST_DEPTH := by
    by_contra hfull
    have herr : t.insert (hashOutput perm) x = .error .fullTree := by
      unfold MerkleTree.insert MerkleTree.numLeaves MerkleTree.depth
      rw [ht.leaves, ht.depth_eq, Nat.one_shiftLeft, if_pos (by omega)]
    rw [herr] at h
    exact absurd h (by simp [treeResult])
  obtain ⟨t₁, hins, hrep⟩ := insert_represents (hashOutput_lawful perm) ht hroom x
  rw [hins] at h
  simp only [treeResult, Except.ok.injEq, Prod.mk.injEq] at h
  rw [← h.1]
  exact ⟨hroom, hrep⟩

/-- What a successful `_insert_asset` did. -/
theorem _insertAsset_eq_ok {ast ast' : AccountStateTree} {assetId : F} {amount : U256}
    (h : ast._insertAsset perm assetId amount = .ok ast') :
    ∃ t i, treeResult (ast.tree.insert (hashOutput perm) (leafCommitment perm assetId amount)) =
        .ok (t, i) ∧
      ast' = { tree := t, assets := ast.assets.insert assetId (ast.tree.numLeaves, amount) } := by
  rw [_insertAsset, bind_eq_ok] at h
  obtain ⟨⟨t, i⟩, hins, hret⟩ := h
  rw [pure_eq_ok] at hret
  exact ⟨t, i, hins, hret.symm⟩

/-- A new asset gets the next leaf. -/
theorem Mirrors._insertAsset {ast ast' : AccountStateTree} {ds : List HashOut} {assetId : F}
    {amount : U256} (hm : Mirrors perm ast ds) (hfresh : assetId ∉ ast.assets)
    (h : ast._insertAsset perm assetId amount = .ok ast') :
    Mirrors perm ast' (ds ++ [leafCommitment perm assetId amount]) := by
  obtain ⟨t, i, hins, rfl⟩ := _insertAsset_eq_ok h
  obtain ⟨hroom, hrep⟩ := insert_cases hm.tree hins
  have hcount : ast.tree.numLeaves = ds.length := by rw [MerkleTree.numLeaves, hm.tree.leaves]
  have hne : (0 : F) ≠ assetId := by
    rintro rfl
    have hdefault := hm.default
    rw [AList.lookup_eq_none.mpr hfresh] at hdefault
    cases hdefault
  refine ⟨hrep, ?_, ?_, ?_, ?_⟩
  · rw [List.length_append, List.length_singleton]
    omega
  · rw [AList.entries_insert_of_notMem hfresh, List.map_cons, List.length_append,
      List.length_singleton, List.range_succ, leafIndex, hcount]
    exact (hm.indices.cons _).trans (List.perm_append_singleton _ _).symm
  · intro e he
    rw [AList.entries_insert_of_notMem hfresh, List.mem_cons] at he
    rcases he with rfl | he
    · rw [hcount]
      exact List.getElem?_concat_length
    · have hold := hm.leaf e he
      rwa [List.getElem?_append_left (List.getElem?_eq_some_iff.mp hold).1]
  · rw [AList.lookup_insert_ne hne]
    exact hm.default

theorem new_eq_ok {ast : AccountStateTree} (h : new perm = .ok ast) :
    Mirrors perm ast [leafCommitment perm 0 0] := by
  rw [new, bind_eq_ok] at h
  obtain ⟨t₀, hnew, hins⟩ := h
  rw [unwrap_eq_ok] at hins
  obtain ⟨t₁, ht₁, hrep₁⟩ := new_represents (hashOutput perm) depth_pos
  rw [ht₁] at hnew
  obtain rfl : t₁ = t₀ := Except.ok.inj hnew
  obtain ⟨t, i, hleaf, rfl⟩ := _insertAsset_eq_ok hins
  obtain ⟨-, hrep⟩ := insert_cases hrep₁ hleaf
  have hcount : t₁.numLeaves = 0 := by rw [MerkleTree.numLeaves, hrep₁.leaves, List.length_nil]
  refine ⟨hrep, Nat.one_le_two_pow, ?_, ?_, ?_⟩
  · rw [hcount]
    exact List.Perm.refl _
  · intro e he
    rw [hcount, AList.insert_empty, AList.singleton_entries, List.mem_singleton] at he
    rw [he]
    rfl
  · rw [hcount]
    exact AList.lookup_insert _

variable (perm) in
/-- The empty asset tree can be built. -/
theorem new_ok : ∃ ast, new perm = .ok ast := by
  obtain ⟨t₀, hnew, hrep⟩ := new_represents (hashOutput perm) depth_pos
  obtain ⟨t, hins, -⟩ := insert_represents (hashOutput_lawful perm) hrep (by decide)
    (leafCommitment perm 0 0)
  refine ⟨{ tree := t, assets := (∅ : AssetMap).insert 0 (t₀.numLeaves, 0) }, ?_⟩
  rw [new, hnew]
  simp only [treeResult, bind, Except.bind, _insertAsset, hins, unwrap, pure, Except.pure]

theorem insertAsset_eq_ok {ast ast' : AccountStateTree} {assetId : F} {amount : U256}
    (h : ast.insertAsset perm assetId amount = .ok ast') :
    assetId ≠ 0 ∧ assetId ∉ ast.assets ∧ ast._insertAsset perm assetId amount = .ok ast' := by
  unfold insertAsset at h
  split at h
  · cases h
  · rename_i h0
    split at h
    · cases h
    · rename_i hfresh
      exact ⟨h0, hfresh, h⟩

/-- The entry of a key and the others. -/
theorem entries_perm {map : AssetMap} {assetId : F} {v : ℕ × U256}
    (h : map.lookup assetId = some v) :
    map.entries.Perm (⟨assetId, v⟩ :: map.entries.kerase assetId) := by
  have hmem : assetId ∈ map.entries.keys := by
    rw [← AList.keys, ← AList.mem_keys, ← AList.lookup_isSome, h]
    rfl
  obtain ⟨b, l₁, l₂, -, hsplit, herase⟩ := List.exists_of_kerase hmem
  have hb : (⟨assetId, b⟩ : Sigma fun _ : F => ℕ × U256) ∈ map.entries := by
    rw [hsplit]
    simp
  have hval : map.lookup assetId = some b := AList.mem_lookup_iff.mpr hb
  obtain rfl : v = b := Option.some.inj (h.symm.trans hval)
  rw [herase]
  exact (List.Perm.of_eq hsplit).trans List.perm_middle

/-- Two entries with one index are one entry. -/
theorem Mirrors.entry_unique {ast : AccountStateTree} {ds : List HashOut}
    (hm : Mirrors perm ast ds) {e e' : Sigma fun _ : F => ℕ × U256}
    (he : e ∈ ast.assets.entries) (he' : e' ∈ ast.assets.entries)
    (h : leafIndex e = leafIndex e') : e = e' := by
  have hnodup : (ast.assets.entries.map leafIndex).Nodup :=
    hm.indices.nodup_iff.mpr List.nodup_range
  exact List.inj_on_of_nodup_map hnodup he he' h

/-- An update rewrites the leaf of its asset, and nothing else. -/
theorem Mirrors.updateAsset_set {ast ast' : AccountStateTree} {ds : List HashOut} {assetId : F}
    {amount prev : U256} (hm : Mirrors perm ast ds)
    (h : ast.updateAsset perm assetId amount = .ok (ast', prev)) :
    ∃ i, ast.amountFor assetId = some (i, prev) ∧ i < ds.length ∧
      ast'.amountFor assetId = some (i, amount) ∧
      Mirrors perm ast' (ds.set i (leafCommitment perm assetId amount)) := by
  unfold AccountStateTree.updateAsset at h
  split at h
  · cases h
  rename_i h0
  split at h
  · cases h
  rename_i i prevAmount hlookup
  rw [bind_eq_ok] at h
  obtain ⟨t, hupdate, hret⟩ := h
  rw [pure_eq_ok, Prod.mk.injEq] at hret
  have hentry : (⟨assetId, (i, prevAmount)⟩ : Sigma fun _ : F => ℕ × U256) ∈ ast.assets.entries :=
    AList.mem_lookup_iff.mp hlookup
  have hi : i < ds.length := (List.getElem?_eq_some_iff.mp (hm.leaf _ hentry)).1
  obtain ⟨t₁, ht₁, hrep⟩ := updateLeaf_represents (hashOutput_lawful perm) hm.tree hi
    (leafCommitment perm assetId amount)
  rw [ht₁] at hupdate
  obtain rfl : t₁ = t := Except.ok.inj hupdate
  have hperm := entries_perm hlookup
  rw [← hret.1, ← hret.2]
  refine ⟨i, hlookup, hi, AList.lookup_insert _, hrep, by rw [List.length_set]; exact hm.room,
    ?_, ?_, ?_⟩
  · rw [List.length_set, AList.entries_insert, List.map_cons]
    exact ((hperm.map leafIndex).symm).trans hm.indices
  · intro e he
    rw [AList.entries_insert, List.mem_cons] at he
    rcases he with rfl | he
    · exact List.getElem?_set_self hi
    · have hold : e ∈ ast.assets.entries := hperm.mem_iff.mpr (List.mem_cons_of_mem _ he)
      have hne : i ≠ e.2.1 := by
        intro heq
        have hsame := hm.entry_unique hentry hold heq
        have hkey : assetId ∉ (ast.assets.entries.kerase assetId).keys :=
          List.notMem_keys_kerase assetId ast.assets.nodupKeys
        rw [← hsame] at he
        exact hkey (List.mem_keys_of_mem he)
      rw [List.getElem?_set_ne hne]
      exact hm.leaf e hold
  · rw [AList.lookup_insert_ne (Ne.symm h0)]
    exact hm.default

theorem Mirrors.updateAsset {ast ast' : AccountStateTree} {ds : List HashOut} {assetId : F}
    {amount prev : U256} (hm : Mirrors perm ast ds)
    (h : ast.updateAsset perm assetId amount = .ok (ast', prev)) : ∃ ds', Mirrors perm ast' ds' := by
  obtain ⟨i, -, -, -, hmirrors⟩ := hm.updateAsset_set h
  exact ⟨_, hmirrors⟩

variable (perm) in
/-- The leaf of an asset, zero if it has none. -/
def entryLeaf (ast : AccountStateTree) (assetId : F) : HashOut :=
  match ast.amountFor assetId with
  | some (_, amount) => leafCommitment perm assetId amount
  | none => 0

/-- The asset gets its new amount at its index, which is the next one if it is new; the other
leaves stay. -/
theorem Mirrors.insertOrUpdateAsset {ast ast' : AccountStateTree} {ds : List HashOut} {assetId : F}
    {amount : U256} {prev : Option U256} (hm : Mirrors perm ast ds)
    (h : ast.insertOrUpdateAsset perm assetId amount = .ok (ast', prev)) :
    ∃ i ds', i < 2 ^ ACC_AST_DEPTH ∧ ((ast.amountFor assetId).getD (ast.tree.numLeaves, 0)).1 = i ∧
      ast'.amountFor assetId = some (i, amount) ∧
      (hashOutput perm).leafOf ds i = entryLeaf perm ast assetId ∧ Mirrors perm ast' ds' ∧
      (hashOutput perm).leafOf ds' =
        Function.update ((hashOutput perm).leafOf ds) i (leafCommitment perm assetId amount) := by
  have hroom := hm.room
  unfold AccountStateTree.insertOrUpdateAsset at h
  split at h
  · obtain ⟨⟨ast₁, prevAmount⟩, hupdate, hret⟩ := bind_eq_ok.mp h
    obtain ⟨i, hlookup, hi, hnew, hmirrors⟩ := hm.updateAsset_set (unwrap_eq_ok.mp hupdate)
    have hret := pure_eq_ok.mp hret
    rw [Prod.mk.injEq] at hret
    rw [← hret.1]
    have hleaf := hm.leaf ⟨assetId, (i, prevAmount)⟩ (AList.mem_lookup_iff.mp hlookup)
    refine ⟨i, _, by omega, by rw [hlookup]; rfl, hnew, ?_, hmirrors, funext fun j => ?_⟩
    · rw [leafOf_getElem? hi] at hleaf
      rw [entryLeaf, hlookup]
      exact Option.some.inj hleaf
    · by_cases hj : j = i
      · rw [hj, Function.update_self, MerkleHash.leafOf, List.getD_eq_getElem?_getD,
          List.getElem?_set_self hi]
        rfl
      · rw [Function.update_of_ne hj]
        exact leafOf_set_of_ne hj
  · rename_i hfresh
    obtain ⟨ast₁, hinsert, hret⟩ := bind_eq_ok.mp h
    obtain ⟨-, -, hraw⟩ := insertAsset_eq_ok (unwrap_eq_ok.mp hinsert)
    have hret := pure_eq_ok.mp hret
    rw [Prod.mk.injEq] at hret
    rw [← hret.1]
    have hmirrors := hm._insertAsset hfresh hraw
    obtain ⟨t, k, hins, hast⟩ := _insertAsset_eq_ok hraw
    obtain ⟨hlt, -⟩ := insert_cases hm.tree hins
    have hcount : ast.tree.numLeaves = ds.length := by rw [MerkleTree.numLeaves, hm.tree.leaves]
    have hnone : ast.amountFor assetId = none := AList.lookup_eq_none.mpr hfresh
    refine ⟨ds.length, _, hlt, by rw [hnone]; exact hcount, ?_, ?_, hmirrors, funext fun j => ?_⟩
    · rw [hast, ← hcount]
      exact AList.lookup_insert _
    · rw [leafOf_fresh (Nat.le_refl _), entryLeaf, hnone]
      rfl
    · by_cases hj : j = ds.length
      · rw [hj, Function.update_self, MerkleHash.leafOf, List.getD_eq_getElem?_getD,
          List.getElem?_concat_length]
        rfl
      · rw [Function.update_of_ne hj]
        rcases Nat.lt_or_gt_of_ne hj with hlt | hgt
        · exact leafOf_append hlt
        · rw [leafOf_fresh (by rw [List.length_append, List.length_singleton]; omega),
            leafOf_fresh (by omega)]

/-- `foldlM` of insertions keeps the map in step with the tree. -/
theorem Mirrors.foldlM {entries : List (Sigma fun _ : F => ℕ × U256)} {ast ast' : AccountStateTree}
    {ds : List HashOut} (hm : Mirrors perm ast ds)
    (h : entries.foldlM (fun ast entry => ast.insertAsset perm entry.1 entry.2.2) ast =
      .ok ast') : ∃ ds', Mirrors perm ast' ds' := by
  induction entries generalizing ast ds with
  | nil =>
      rw [List.foldlM_nil, pure_eq_ok] at h
      rw [← h]
      exact ⟨ds, hm⟩
  | cons entry entries ih =>
      rw [List.foldlM_cons, bind_eq_ok] at h
      obtain ⟨ast₁, hins, hrest⟩ := h
      obtain ⟨-, hfresh, hraw⟩ := insertAsset_eq_ok hins
      exact ih (hm._insertAsset hfresh hraw) hrest

theorem Reachable.mirrors {ast : AccountStateTree} (h : Reachable perm ast) :
    ∃ ds, Mirrors perm ast ds := by
  induction h with
  | new h => exact ⟨_, new_eq_ok h⟩
  | newFromAssetMap h =>
      rw [AccountStateTree.newFromAssetMap, bind_eq_ok] at h
      obtain ⟨-, -, h⟩ := h
      rw [bind_eq_ok] at h
      obtain ⟨ast₀, hnew, hfold⟩ := h
      exact (new_eq_ok hnew).foldlM hfold
  | insertAsset _ h ih =>
      obtain ⟨ds, hm⟩ := ih
      obtain ⟨-, hfresh, hraw⟩ := insertAsset_eq_ok h
      exact ⟨_, hm._insertAsset hfresh hraw⟩
  | updateAsset _ h ih =>
      obtain ⟨ds, hm⟩ := ih
      exact hm.updateAsset h

/-! ## The root -/

theorem Mirrors.root {ast : AccountStateTree} {ds : List HashOut} (hm : Mirrors perm ast ds) :
    ast.root perm = .ok
      (Lib.node (hashOutput perm).node ((hashOutput perm).leafOf ds) ACC_AST_DEPTH 0) := by
  rw [AccountStateTree.root, root_represents hm.tree depth_pos hm.room]
  rfl

/-- A root exists. -/
theorem Reachable.root {ast : AccountStateTree} (h : Reachable perm ast) :
    ∃ r, ast.root perm = .ok r := by
  obtain ⟨ds, hm⟩ := h.mirrors
  exact ⟨_, hm.root⟩

/-- Every leaf has its entry. -/
theorem Mirrors.exists_entry {ast : AccountStateTree} {ds : List HashOut} (hm : Mirrors perm ast ds)
    {i : ℕ} (hi : i < ds.length) : ∃ e ∈ ast.assets.entries, e.2.1 = i := by
  have hmem : i ∈ ast.assets.entries.map leafIndex :=
    hm.indices.mem_iff.mpr (List.mem_range.mpr hi)
  exact List.mem_map.mp hmem

/-- Two asset trees with the same entries have the same leaves, so that a saved map that is
rebuilt leaf by leaf gives back the root. -/
theorem Mirrors.leaves_eq {ast ast' : AccountStateTree} {ds ds' : List HashOut}
    (hm : Mirrors perm ast ds) (hm' : Mirrors perm ast' ds')
    (h : ast.assets.entries.Perm ast'.assets.entries) : ds = ds' := by
  have hlen : ds.length = ds'.length := by
    have hrange := (hm.indices.symm.trans (h.map leafIndex)).trans hm'.indices
    simpa using hrange.length_eq
  apply List.ext_getElem?
  intro i
  by_cases hi : i < ds.length
  · obtain ⟨e, he, rfl⟩ := hm.exists_entry hi
    rw [hm.leaf e he, hm'.leaf e (h.mem_iff.mp he)]
  · rw [List.getElem?_eq_none (by omega), List.getElem?_eq_none (by omega)]

theorem root_eq_of_entries {ast ast' : AccountStateTree} (h : Reachable perm ast)
    (h' : Reachable perm ast') (heq : ast.assets.entries.Perm ast'.assets.entries) :
    ast.root perm = ast'.root perm := by
  obtain ⟨ds, hm⟩ := h.mirrors
  obtain ⟨ds', hm'⟩ := h'.mirrors
  rw [hm.root, hm'.root, hm.leaves_eq hm' heq]

end AccountStateTree

end Doxa.Client
