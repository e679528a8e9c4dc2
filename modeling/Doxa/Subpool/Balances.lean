import Doxa.Subpool.Effects

/-!
# Balances in rows

The balance of an account in an asset is what the asset column of its row lists. An account
read from a row has the listed balances, and the row written for an account lists those of
the account, whether or not it can be read back.
-/

namespace Doxa.Subpool

open Lib Client Circuit
open Contract (U256)

/-- The amount an asset map gives to an asset. -/
def amountIn (map : AssetMap) (a : F) : U256 := ((map.lookup a).map Prod.snd).getD 0

/-- The assets a row lists. -/
def listedAssets (row : AccountRow) : AssetMap :=
  match row.ast.asObject with
  | some astObj =>
    match readAssets astObj with
    | .ok map => map
    | .error _ => ∅
  | none => ∅

def rowBalance (a : F) (row : AccountRow) : ℕ := (amountIn (listedAssets row) a).toNat

theorem amountIn_insert (map : AssetMap) (a b : F) (v : ℕ × U256) :
    amountIn (map.insert a v) b = if b = a then v.2 else amountIn map b := by
  unfold amountIn
  split
  · rename_i hb
    rw [hb, AList.lookup_insert, Option.map_some, Option.getD_some]
  · rename_i hb
    rw [AList.lookup_insert_ne hb]

theorem amountIn_of_perm {map map' : AssetMap} (h : map.entries.Perm map'.entries) (a : F) :
    amountIn map a = amountIn map' a := by
  rw [amountIn, AList.perm_lookup h, amountIn]

variable {perm : State → State}

/-! ## Reading -/

section Reading

/-- Inserting listed assets gives each of them its amount. -/
theorem amountIn_foldlM {entries : List AssetEntry} {ast ast' : AccountStateTree}
    (hnodup : entries.NodupKeys)
    (h : entries.foldlM (fun ast entry => ast.insertAsset perm entry.1 entry.2.2) ast =
      .ok ast') (a : F) :
    amountIn ast'.assets a =
      match entries.dlookup a with
      | some v => v.2
      | none => amountIn ast.assets a := by
  induction entries generalizing ast with
  | nil =>
      rw [List.foldlM_nil, pure_eq_ok] at h
      rw [h]
      rfl
  | cons e entries ih =>
      rw [List.nodupKeys_cons] at hnodup
      rw [List.foldlM_cons, bind_eq_ok] at h
      obtain ⟨ast₁, hins, hrest⟩ := h
      obtain ⟨-, -, hraw⟩ := AccountStateTree.insertAsset_eq_ok hins
      obtain ⟨t, i, -, rfl⟩ := AccountStateTree._insertAsset_eq_ok hraw
      rw [ih hnodup.2 hrest, amountIn_insert]
      by_cases ha : a = e.1
      · subst ha
        have hnone : entries.dlookup e.1 = none := List.dlookup_eq_none.mpr hnodup.1
        obtain ⟨k, v⟩ := e
        simp only [hnone, List.dlookup_cons_eq, if_true]
      · rw [List.dlookup_cons_ne _ _ ha, if_neg ha]

/-- The empty tree lists nothing but the default asset. -/
theorem amountIn_new {ast : AccountStateTree} (h : AccountStateTree.new perm = .ok ast) (a : F) :
    amountIn ast.assets a = 0 := by
  rw [AccountStateTree.new, bind_eq_ok] at h
  obtain ⟨t, -, hins⟩ := h
  rw [unwrap_eq_ok] at hins
  obtain ⟨t₁, i, -, rfl⟩ := AccountStateTree._insertAsset_eq_ok hins
  rw [amountIn_insert]
  split <;> rfl

theorem amountIn_newFromAssetMap {map : AssetMap} {ast : AccountStateTree}
    (h : AccountStateTree.newFromAssetMap perm map = .ok ast) (a : F) :
    amountIn ast.assets a = amountIn map a := by
  rw [AccountStateTree.newFromAssetMap, bind_eq_ok] at h
  obtain ⟨-, -, h⟩ := h
  obtain ⟨ast₀, hnew, hfold⟩ := bind_eq_ok.mp h
  have hperm := sortedEntries_perm map
  have hnodup : (AccountStateTree.sortedEntries map).NodupKeys :=
    (List.perm_nodupKeys hperm).mpr map.nodupKeys
  have hlookup : (AccountStateTree.sortedEntries map).dlookup a = map.lookup a :=
    List.perm_dlookup a hnodup hperm
  rw [amountIn_foldlM hnodup hfold, hlookup, amountIn_new hnew, amountIn]
  cases map.lookup a <;> rfl

/-- What an account read from a row is made of. -/
structure ReadFrom (perm : State → State) (row : AccountRow) (acc : StandardAccount) : Prop where
  identifier : ∃ b, hexDecode row.privateIdentifier = some b ∧
    acc.privateIdentifier = bytesToPrivateId b
  reachable : acc.ast.Reachable perm
  spend_auth : acc.spendAuth = readSpendAuth row.spendAuth
  consume_auth : acc.consumeAuth = .default
  balance : ∀ a, amountIn acc.ast.assets a = amountIn (listedAssets row) a

theorem accountFromRow_eq_ok {row : AccountRow} {acc : StandardAccount}
    (h : accountFromRow perm row = .ok acc) : ReadFrom perm row acc := by
  unfold accountFromRow at h
  obtain ⟨piBytes, hpi, h₁⟩ := bind_eq_ok.mp h
  obtain ⟨piArr, hpiArr, h₂⟩ := bind_eq_ok.mp h₁
  obtain ⟨subpoolIdArr, -, h₃⟩ := bind_eq_ok.mp h₂
  obtain ⟨acc₀, hacc₀, h₄⟩ := bind_eq_ok.mp h₃
  obtain ⟨nonceArr, -, h₅⟩ := bind_eq_ok.mp h₄
  obtain ⟨spendPkBytes, hspend, h₆⟩ := bind_eq_ok.mp h₅
  obtain rfl := (tryInto_eq_ok_iff.mp hspend).2
  have hpi' := orError_eq_ok.mp hpi
  rw [← (tryInto_eq_ok_iff.mp hpiArr).2] at hacc₀
  rw [StandardAccount.newWith, bind_eq_ok] at hacc₀
  obtain ⟨ast₀, hnew, hacc₀⟩ := hacc₀
  obtain rfl := pure_eq_ok.mp hacc₀
  simp only at h₆
  split at h₆
  · rename_i astObj hobj
    obtain ⟨map, hmap, h₇⟩ := bind_eq_ok.mp h₆
    obtain ⟨ast, hast, h₈⟩ := bind_eq_ok.mp h₇
    rw [← pure_eq_ok.mp h₈]
    refine ⟨⟨piBytes, hpi', rfl⟩, .newFromAssetMap hast, rfl, rfl, fun a => ?_⟩
    have hlisted : listedAssets row = map := by
      unfold listedAssets
      simp only [hobj, hmap]
    rw [hlisted]
    exact amountIn_newFromAssetMap hast a
  · rename_i hobj
    rw [← pure_eq_ok.mp h₆]
    refine ⟨⟨piBytes, hpi', rfl⟩, .new hnew, rfl, rfl, fun a => ?_⟩
    have hlisted : listedAssets row = ∅ := by
      unfold listedAssets
      simp only [hobj]
    rw [hlisted]
    exact amountIn_new hnew a

end Reading

/-! ## Writing -/

section Writing

/-- What a successful `insert_or_update_asset` did. -/
theorem insertOrUpdateAsset_eq_ok {ast ast' : AccountStateTree} {assetId : F} {amount : U256}
    {prev : Option U256} (h : ast.insertOrUpdateAsset perm assetId amount = .ok (ast', prev)) :
    (ast.Reachable perm → ast'.Reachable perm) ∧
      ∃ i, ast'.assets = ast.assets.insert assetId (i, amount) := by
  unfold AccountStateTree.insertOrUpdateAsset at h
  split at h
  · obtain ⟨⟨ast₁, old⟩, hupdate, h⟩ := bind_eq_ok.mp h
    rw [unwrap_eq_ok] at hupdate
    rw [pure_eq_ok, Prod.mk.injEq] at h
    obtain ⟨rfl, -⟩ := h
    refine ⟨fun hreach => hreach.updateAsset hupdate, ?_⟩
    unfold AccountStateTree.updateAsset at hupdate
    split at hupdate
    · cases hupdate
    split at hupdate
    · cases hupdate
    rename_i i prevAmount hlookup
    obtain ⟨t, -, hret⟩ := bind_eq_ok.mp hupdate
    rw [pure_eq_ok, Prod.mk.injEq] at hret
    exact ⟨i, by rw [← hret.1]⟩
  · obtain ⟨ast₁, hinsert, h⟩ := bind_eq_ok.mp h
    rw [unwrap_eq_ok] at hinsert
    rw [pure_eq_ok, Prod.mk.injEq] at h
    obtain ⟨rfl, -⟩ := h
    refine ⟨fun hreach => hreach.insertAsset hinsert, ?_⟩
    obtain ⟨-, -, hraw⟩ := AccountStateTree.insertAsset_eq_ok hinsert
    obtain ⟨t, i, -, rfl⟩ := AccountStateTree._insertAsset_eq_ok hraw
    exact ⟨ast.tree.numLeaves, rfl⟩

/-- The written row lists the balances of the account. -/
theorem rowBalance_setColumns {acc : StandardAccount} {eth : String} {ins : AccountInsert}
    (h : accountToInsert perm acc eth = .ok ins) (a : F) (row : AccountRow) :
    rowBalance a (Database.setColumns ins row) = (amountIn acc.ast.assets a).toNat := by
  obtain ⟨-, -, -, -, hast⟩ := accountToInsert_eq_ok h
  obtain ⟨map, hread, hentries⟩ := readAssets_stored (List.Perm.refl (astJson acc.ast.assets))
  have hlisted : listedAssets (Database.setColumns ins row) = map := by
    unfold listedAssets Database.setColumns
    simp only [hast, Json.asObject, hread]
  rw [rowBalance, hlisted, amountIn_of_perm hentries]

end Writing

end Doxa.Subpool
