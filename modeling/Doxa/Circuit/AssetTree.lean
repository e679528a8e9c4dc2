import Doxa.Circuit.Padding
import Mathlib.Algebra.BigOperators.Fin

/-!
# Updates of the asset tree

The asset root of an account stands for a tree of entries, each an asset with its amount or
nothing. `assert_ast_update` opens one position against the old root and, along the same path,
against the new one. Unless hashes collide, the entry at that position is the one opened, and
the new root is that of the tree with only this entry replaced; so the balance of one asset
changes by the difference of the two amounts, and no other balance does. The withdrawal
circuit chains `NOTE_BATCH` such updates, from one intermediate root to the next.

The hash is not injective, so collision freedom is asked for where it is used: of the opened
path against the tree (`OpeningBinds`) and of two trees with one root (`TreesBind`). The
default leaf is a constant, and an entry whose digest is this constant counts as a collision.
-/

namespace Doxa.Circuit

open Lib Function

/-- What a leaf of the asset tree stands for. -/
inductive AstEntry
  | absent
  | asset (assetId : F) (amt : U256Target)
  deriving DecidableEq

namespace AstEntry

/-- The amount of an asset an entry holds. -/
def held (assetId : F) : AstEntry → ℕ
  | absent => 0
  | asset b amt => if b = assetId then amt.value else 0

/-- The entry that a selector opens. -/
def opened (assetId : F) (amt : U256Target) (selector : F) : AstEntry :=
  if selector = 1 then asset assetId amt else absent

theorem opened_zero (assetId : F) (amt : U256Target) : opened assetId amt 0 = absent :=
  if_neg zero_ne_one

theorem opened_one (assetId : F) (amt : U256Target) : opened assetId amt 1 = asset assetId amt :=
  if_pos rfl

end AstEntry

variable (perm : State → State)

def AstEntry.leaf : AstEntry → HashOut
  | absent => AST_DEFAULT_LEAF
  | asset assetId amt => astLeaf perm assetId amt

/-- The leaves of a tree of entries. -/
def astLeaves (ast : ℕ → AstEntry) (i : ℕ) : HashOut := (ast i).leaf perm

def astRoot (ast : ℕ → AstEntry) : HashOut :=
  node (nodeHash perm) (astLeaves perm ast) ACC_AST_DEPTH 0

/-- The balance of an asset: what all entries hold of it. -/
def astBalance (ast : ℕ → AstEntry) (assetId : F) : ℕ :=
  ∑ i ∈ Finset.range (2 ^ ACC_AST_DEPTH), (ast i).held assetId

/-- The path from an entry collides neither with the tree nor with the entry stored there. -/
structure OpeningBinds (ast : ℕ → AstEntry) (t : MerkleRootTarget ACC_AST_DEPTH)
    (entry : AstEntry) : Prop where
  path : ∀ l < ACC_AST_DEPTH,
    ¬ PathCollision (nodeHash perm) (astLeaves perm ast) t.sibling (entry.leaf perm) t.position l
  entry : (ast t.position).leaf perm = entry.leaf perm → ast t.position = entry

/-- Two trees do not collide, neither in their nodes nor in their leaves. -/
structure TreesBind (ast ast' : ℕ → AstEntry) : Prop where
  node : ∀ l < ACC_AST_DEPTH, ∀ i < 2 ^ (ACC_AST_DEPTH - 1 - l),
    ¬ NodeCollision (nodeHash perm) (astLeaves perm ast) (astLeaves perm ast') l i
  entry : ∀ i < 2 ^ ACC_AST_DEPTH, (ast i).leaf perm = (ast' i).leaf perm → ast i = ast' i

variable {perm} {ast ast' : ℕ → AstEntry} {t : MerkleRootTarget ACC_AST_DEPTH} {assetId : F}
  {amt : U256Target} {accAstRoot : HashOut} {selector : F}

/-! ## Entries and balances -/

theorem position_lt (t : MerkleRootTarget ACC_AST_DEPTH) : t.position < 2 ^ ACC_AST_DEPTH :=
  Nat.ofBits_lt_two_pow _

/-- The leaf that is put on the path is the one of the opened entry. -/
theorem existsOrDefault_eq (hselector : IsBool selector) :
    existsOrDefault perm assetId amt selector = (AstEntry.opened assetId amt selector).leaf perm := by
  unfold existsOrDefault
  rcases isBool_iff.mp hselector with rfl | rfl
  · rw [ifElseHash_zero, AstEntry.opened_zero]
    rfl
  · rw [ifElseHash_one, AstEntry.opened_one]
    rfl

/-- An asset that is not in the tree is opened with amount zero. -/
theorem AssertAssetAmtOrDefaultInAst.amt_zero
    (h : AssertAssetAmtOrDefaultInAst perm t assetId amt accAstRoot selector)
    (habsent : selector = 0) : amt = 0 := by
  funext i
  have hi := h.absent i
  rw [habsent, not_zero, condEq_one] at hi
  exact hi

/-- An opened entry is the asset with its amount, or absent with amount zero. -/
theorem AssertAssetAmtOrDefaultInAst.opened_cases
    (h : AssertAssetAmtOrDefaultInAst perm t assetId amt accAstRoot selector)
    (hselector : IsBool selector) {entry : AstEntry}
    (hentry : entry = .opened assetId amt selector) :
    selector = 1 ∧ entry = .asset assetId amt ∨ selector = 0 ∧ entry = .absent ∧ amt = 0 := by
  rw [hentry]
  rcases isBool_iff.mp hselector with habsent | hexists
  · exact .inr ⟨habsent, by rw [habsent, AstEntry.opened_zero], h.amt_zero habsent⟩
  · exact .inl ⟨hexists, by rw [hexists, AstEntry.opened_one]⟩

/-- An opened entry holds the amount on the wires. -/
theorem AssertAssetAmtOrDefaultInAst.held
    (h : AssertAssetAmtOrDefaultInAst perm t assetId amt accAstRoot selector)
    (hselector : IsBool selector) (b : F) :
    (AstEntry.opened assetId amt selector).held b = if assetId = b then amt.value else 0 := by
  rcases isBool_iff.mp hselector with habsent | rfl
  · have hzero : U256Target.value 0 = 0 := by simp [U256Target.value]
    rw [h.amt_zero habsent, habsent, AstEntry.opened_zero, hzero, ite_self]
    rfl
  · rw [AstEntry.opened_one]
    rfl

/-- Replacing one entry changes every balance by what the two entries hold. -/
theorem astBalance_update (ast : ℕ → AstEntry) {i : ℕ} (hi : i < 2 ^ ACC_AST_DEPTH)
    (entry : AstEntry) (b : F) :
    astBalance (update ast i entry) b + (ast i).held b = astBalance ast b + entry.held b := by
  have hmem := Finset.mem_range.mpr hi
  have hrest : ∑ j ∈ (Finset.range (2 ^ ACC_AST_DEPTH)).erase i, (update ast i entry j).held b =
      ∑ j ∈ (Finset.range (2 ^ ACC_AST_DEPTH)).erase i, (ast j).held b := by
    refine Finset.sum_congr rfl fun j hj => ?_
    rw [update_of_ne (Finset.ne_of_mem_erase hj)]
  have hnew := Finset.add_sum_erase _ (fun j => (update ast i entry j).held b) hmem
  have hold := Finset.add_sum_erase _ (fun j => (ast j).held b) hmem
  simp only [update_self] at hnew
  unfold astBalance
  omega

theorem astBalance_congr (h : ∀ i < 2 ^ ACC_AST_DEPTH, ast i = ast' i) (b : F) :
    astBalance ast b = astBalance ast' b :=
  Finset.sum_congr rfl fun i hi => by rw [h i (Finset.mem_range.mp hi)]

theorem astLeaves_update (i : ℕ) (entry : AstEntry) :
    astLeaves perm (update ast i entry) = update (astLeaves perm ast) i (entry.leaf perm) :=
  funext fun j => apply_update (fun _ e => AstEntry.leaf perm e) ast i entry j

/-- Trees with one root have the same entries. -/
theorem TreesBind.eq (h : TreesBind perm ast ast') (hroot : astRoot perm ast = astRoot perm ast')
    {i : ℕ} (hi : i < 2 ^ ACC_AST_DEPTH) : ast i = ast' i := by
  refine h.entry i hi (leaf_eq_of_node_eq hroot (fun l hl j hj => h.node l hl j ?_)
    (Nat.div_eq_of_lt hi))
  have hpos : 0 < 2 ^ (ACC_AST_DEPTH - 1 - l) := by positivity
  exact (Nat.div_eq_zero_iff_lt hpos).mp hj

/-! ## One update -/

/-- An opening finds its entry at its position, with the siblings of the tree. -/
theorem AssertAssetAmtOrDefaultInAst.opens
    (h : AssertAssetAmtOrDefaultInAst perm t assetId amt accAstRoot selector)
    (hselector : IsBool selector) (hroot : astRoot perm ast = accAstRoot)
    (hbinds : OpeningBinds perm ast t (.opened assetId amt selector)) :
    ast t.position = .opened assetId amt selector ∧
      ∀ l < ACC_AST_DEPTH,
        t.sibling l = siblingOf (nodeHash perm) (astLeaves perm ast) t.position l := by
  have hclimb := h.root
  rw [existsOrDefault_eq hselector, MerkleRootTarget.root_eq_climb h.path, ← hroot, astRoot,
    ← Nat.div_eq_of_lt (position_lt t)] at hclimb
  rcases isPath_of_climb hclimb with ⟨hleaf, hsib⟩ | ⟨l, hl, hcollision⟩
  · exact ⟨hbinds.entry hleaf.symm, hsib⟩
  · exact absurd hcollision (hbinds.path l hl)

/-- Along the siblings of a tree the root is the one of the tree with the entry replaced. -/
theorem AssertAssetAmtOrDefaultInAst.root_update
    (h : AssertAssetAmtOrDefaultInAst perm t assetId amt accAstRoot selector)
    (hselector : IsBool selector) (hsib : ∀ l < ACC_AST_DEPTH,
      t.sibling l = siblingOf (nodeHash perm) (astLeaves perm ast) t.position l) :
    astRoot perm (update ast t.position (.opened assetId amt selector)) = accAstRoot := by
  have hclimb := h.root
  rw [existsOrDefault_eq hselector, MerkleRootTarget.root_eq_climb h.path, climb_siblings hsib,
    Nat.div_eq_of_lt (position_lt t), ← astLeaves_update] at hclimb
  exact hclimb

section Update

variable {accinAmt accoutAmt : U256Target} {accinAstRoot accoutAstRoot : HashOut}
  {existsIn existsOut : F}

/-- What an update does to the tree behind the old root. -/
theorem AssertAstUpdate.updates
    (h : AssertAstUpdate perm t assetId accinAmt accoutAmt accinAstRoot accoutAstRoot existsIn
      existsOut) (hin : IsBool existsIn) (hout : IsBool existsOut)
    (hroot : astRoot perm ast = accinAstRoot)
    (hbinds : OpeningBinds perm ast t (.opened assetId accinAmt existsIn)) :
    ast t.position = .opened assetId accinAmt existsIn ∧
      astRoot perm (update ast t.position (.opened assetId accoutAmt existsOut)) =
        accoutAstRoot ∧
      ∀ b, (astBalance (update ast t.position (.opened assetId accoutAmt existsOut)) b : ℤ) =
        astBalance ast b + if assetId = b then (accoutAmt.value : ℤ) - accinAmt.value else 0 := by
  obtain ⟨hentry, hsib⟩ := h.accin.opens hin hroot hbinds
  refine ⟨hentry, h.accout.root_update hout hsib, fun b => ?_⟩
  have hsum := astBalance_update ast (position_lt t)
    (.opened assetId accoutAmt existsOut) b
  rw [hentry, h.accin.held hin, h.accout.held hout] at hsum
  split at hsum
  · rename_i hb
    rw [if_pos hb]
    omega
  · rename_i hb
    rw [if_neg hb]
    omega

end Update

/-! ## The chain of a withdrawal -/

namespace WithdrawTxTargets

variable (w : WithdrawTxTargets)

/-- The entry that slot `k` finds, and the one it leaves. -/
def entryIn (k : Fin NOTE_BATCH) : AstEntry :=
  .opened (w.assetIds k) (w.accinAmts k) (w.assetExistsInAccin k)

def entryOut (k : Fin NOTE_BATCH) : AstEntry :=
  .opened (w.assetIds k) (w.accoutAmts k) (w.assetExistsInAccout k)

/-- The tree after the first `k` slots. -/
def astAfter (ast : ℕ → AstEntry) : ℕ → ℕ → AstEntry
  | 0 => ast
  | k + 1 =>
    if h : k < NOTE_BATCH then
      update (astAfter ast k) (w.astMerkles ⟨k, h⟩).position (w.entryOut ⟨k, h⟩)
    else astAfter ast k

/-- What slot `k` changes the balance of an asset by. -/
def change (b : F) (k : Fin NOTE_BATCH) : ℤ :=
  if w.assetIds k = b then ((w.accoutAmts k).value : ℤ) - (w.accinAmts k).value else 0

/-- The asset root after the first `k` slots. -/
def rootAfter (k : ℕ) : HashOut :=
  if h : k < NOTE_BATCH then w.prevRoot ⟨k, h⟩ else w.accout.accAstRoot

theorem prevRoot_eq (k : Fin NOTE_BATCH) : w.prevRoot k = w.rootAfter k.val := by
  rw [rootAfter, dif_pos k.isLt]

theorem currRoot_eq (k : Fin NOTE_BATCH) : w.currRoot k = w.rootAfter (k.val + 1) := by
  unfold currRoot rootAfter
  by_cases h : k.val < NOTE_BATCH - 1
  · rw [dif_pos h, dif_pos (by omega), prevRoot, dif_pos (Nat.succ_pos k.val)]
    rfl
  · rw [dif_neg h, dif_neg (by omega)]

/-- No slot's opening collides with the tree before it. -/
def OpeningsBind (perm : State → State) (ast : ℕ → AstEntry) : Prop :=
  ∀ k : Fin NOTE_BATCH, OpeningBinds perm (w.astAfter ast k.val) (w.astMerkles k) (w.entryIn k)

variable {w}

/-- After the first `k` slots the tree has the root handed on, and the balances have changed by
the sum of the changes. -/
theorem chain_updates (hw : w.Satisfied perm) (hroot : astRoot perm ast = w.accin.accAstRoot)
    (hbinds : w.OpeningsBind perm ast) {k : ℕ} (hk : k ≤ NOTE_BATCH) :
    astRoot perm (w.astAfter ast k) = w.rootAfter k ∧
      (∀ b, (astBalance (w.astAfter ast k) b : ℤ) =
        astBalance ast b + ∑ j : Fin k, w.change b (j.castLE hk)) ∧
      ∀ i, (∀ j : Fin k, i ≠ (w.astMerkles (j.castLE hk)).position) → w.astAfter ast k i = ast i := by
  induction k with
  | zero =>
    refine ⟨hroot, fun b => ?_, fun i _ => rfl⟩
    rw [Fin.sum_univ_zero, add_zero]
    rfl
  | succ k ih =>
    obtain ⟨hprev, hbalance, hframe⟩ := ih (Nat.le_of_succ_le hk)
    have hlt : k < NOTE_BATCH := hk
    have hafter : w.astAfter ast (k + 1) =
        update (w.astAfter ast k) (w.astMerkles ⟨k, hlt⟩).position (w.entryOut ⟨k, hlt⟩) :=
      by rw [astAfter, dif_pos hlt]
    obtain ⟨-, hcurr, hchange⟩ := (hw.ast ⟨k, hlt⟩).updates
      (hw.allocated.asset_exists_in_accin _) (hw.allocated.asset_exists_in_accout _)
      (hprev.trans (w.prevRoot_eq ⟨k, hlt⟩).symm) (hbinds ⟨k, hlt⟩)
    rw [hafter]
    refine ⟨hcurr.trans (w.currRoot_eq ⟨k, hlt⟩), fun b => ?_, fun i hi => ?_⟩
    · refine (hchange b).trans ?_
      rw [hbalance b, Fin.sum_univ_castSucc, ← add_assoc]
      rfl
    · have hne : i ≠ (w.astMerkles ⟨k, hlt⟩).position := hi (Fin.last k)
      rw [update_of_ne hne]
      exact hframe i fun j => hi j.castSucc

end WithdrawTxTargets

/-! ## Sound openings -/

/-- A path with the siblings of the tree collides with nothing. -/
theorem OpeningBinds.of_siblings {entry : AstEntry} (hentry : ast t.position = entry)
    (hsib : ∀ l < ACC_AST_DEPTH,
      t.sibling l = siblingOf (nodeHash perm) (astLeaves perm ast) t.position l) :
    OpeningBinds perm ast t entry where
  path := by
    intro l hl hcollision
    have hleaf : entry.leaf perm = astLeaves perm ast t.position := by rw [astLeaves, hentry]
    exact hcollision.1 (pathPair_tree ⟨hleaf, hsib⟩ hl)
  entry := fun _ => hentry

theorem TreesBind.refl (ast : ℕ → AstEntry) : TreesBind perm ast ast where
  node := fun _ _ _ _ h => h.1 rfl
  entry := fun _ _ _ => rfl

/-- Unless hashes collide, every satisfying assignment of `assert_ast_update` changes one entry
of the tree behind the old root: the one opened, which is the asset with the old amount or
absent with amount zero, becomes the one opened against the new root. The balance of the asset
changes by the difference of the amounts and no other balance changes. Along the slots of a
withdrawal every slot finds its entry in the tree the slots before it left, and the changes
add up. -/
theorem asset_tree_updates (perm : State → State) :
    (∀ (t : MerkleRootTarget ACC_AST_DEPTH) (assetId : F) (accinAmt accoutAmt : U256Target)
        (accinAstRoot accoutAstRoot : HashOut) (existsIn existsOut : F) (ast ast' : ℕ → AstEntry),
      AssertAstUpdate perm t assetId accinAmt accoutAmt accinAstRoot accoutAstRoot existsIn
        existsOut → IsBool existsIn → IsBool existsOut →
      astRoot perm ast = accinAstRoot → astRoot perm ast' = accoutAstRoot →
      OpeningBinds perm ast t (.opened assetId accinAmt existsIn) →
      TreesBind perm (update ast t.position (.opened assetId accoutAmt existsOut)) ast' →
      (∀ i < 2 ^ ACC_AST_DEPTH, i ≠ t.position → ast' i = ast i) ∧
        (existsIn = 1 ∧ ast t.position = .asset assetId accinAmt ∨
          existsIn = 0 ∧ ast t.position = .absent ∧ accinAmt = 0) ∧
        (existsOut = 1 ∧ ast' t.position = .asset assetId accoutAmt ∨
          existsOut = 0 ∧ ast' t.position = .absent ∧ accoutAmt = 0) ∧
        ∀ b, (astBalance ast' b : ℤ) =
          astBalance ast b + if assetId = b then (accoutAmt.value : ℤ) - accinAmt.value else 0) ∧
    ∀ (w : WithdrawTxTargets) (ast ast' : ℕ → AstEntry), w.Satisfied perm →
      astRoot perm ast = w.accin.accAstRoot → astRoot perm ast' = w.accout.accAstRoot →
      w.OpeningsBind perm ast → TreesBind perm (w.astAfter ast NOTE_BATCH) ast' →
      (∀ i < 2 ^ ACC_AST_DEPTH, (∀ k, i ≠ (w.astMerkles k).position) → ast' i = ast i) ∧
        (∀ k, w.astAfter ast k.val (w.astMerkles k).position = w.entryIn k) ∧
        ∀ b, (astBalance ast' b : ℤ) = astBalance ast b + ∑ k,
          if w.assetIds k = b then ((w.accoutAmts k).value : ℤ) - (w.accinAmts k).value else 0 := by
  refine ⟨?_, ?_⟩
  · intro t assetId accinAmt accoutAmt accinAstRoot accoutAstRoot existsIn existsOut ast ast' h hin
      hout hroot hroot' hbinds htrees
    obtain ⟨hentry, hupdated, hbalance⟩ := h.updates hin hout hroot hbinds
    have heq : ∀ i < 2 ^ ACC_AST_DEPTH,
        ast' i = update ast t.position (.opened assetId accoutAmt existsOut) i :=
      fun i hi => (htrees.eq (hupdated.trans hroot'.symm) hi).symm
    refine ⟨fun i hi hne => ?_, h.accin.opened_cases hin hentry,
      h.accout.opened_cases hout ?_, fun b => ?_⟩
    · rw [heq i hi, update_of_ne hne]
    · rw [heq _ (position_lt t), update_self]
    · rw [← hbalance b, astBalance_congr heq]
  · intro w ast ast' hw hroot hroot' hbinds htrees
    obtain ⟨hlast, hbalance, hframe⟩ := WithdrawTxTargets.chain_updates hw hroot hbinds le_rfl
    have heq : ∀ i < 2 ^ ACC_AST_DEPTH, ast' i = w.astAfter ast NOTE_BATCH i :=
      fun i hi => (htrees.eq (hlast.trans hroot'.symm) hi).symm
    refine ⟨fun i hi hne => ?_, fun k => ?_, fun b => ?_⟩
    · rw [heq i hi]
      exact hframe i hne
    · obtain ⟨hprev, -, -⟩ := WithdrawTxTargets.chain_updates hw hroot hbinds k.isLt.le
      exact ((hw.ast k).updates (hw.allocated.asset_exists_in_accin k)
        (hw.allocated.asset_exists_in_accout k) (hprev.trans (w.prevRoot_eq k).symm)
        (hbinds k)).1
    · rw [astBalance_congr heq, hbalance b]
      rfl

/-- The tree without entries. -/
def emptyAst : ℕ → AstEntry := fun _ => .absent

/-- With the identity permutation the nodes of the empty tree are zero. -/
theorem emptyAst_node (l i : ℕ) : node (nodeHash id) (astLeaves id emptyAst) l i = 0 := by
  induction l generalizing i with
  | zero => rfl
  | succ l ih =>
    rw [node_succ, ih, ih, nodeHash_eq]
    decide

/-- So the zero path has the siblings of the empty tree. -/
theorem emptyAst_siblings (l : ℕ) : (MerkleRootTarget.zero ACC_AST_DEPTH).sibling l =
    siblingOf (nodeHash id) (astLeaves id emptyAst)
      (MerkleRootTarget.zero ACC_AST_DEPTH).position l := by
  rw [siblingOf, emptyAst_node]
  exact dite_eq_right_iff.mpr fun _ => rfl

theorem emptyAst_root :
    astRoot id emptyAst = (MerkleRootTarget.zero ACC_AST_DEPTH).root id AST_DEFAULT_LEAF := by
  have hleaf : AST_DEFAULT_LEAF =
      astLeaves id emptyAst (MerkleRootTarget.zero ACC_AST_DEPTH).position := rfl
  rw [MerkleRootTarget.root_eq_climb (MerkleRootTarget.zero_satisfied _),
    climb_siblings fun l _ => emptyAst_siblings l, hleaf, update_eq_self,
    Nat.div_eq_of_lt (position_lt _)]
  rfl

theorem emptyAst_binds :
    OpeningBinds id emptyAst (MerkleRootTarget.zero ACC_AST_DEPTH) .absent :=
  .of_siblings rfl fun l _ => emptyAst_siblings l

theorem withdraw_astAfter (k : ℕ) :
    (BridgeRoots.withdraw id (.real id)).astAfter emptyAst k = emptyAst := by
  induction k with
  | zero => rfl
  | succ k ih =>
    rw [WithdrawTxTargets.astAfter]
    split
    · rename_i hk
      rw [ih]
      have hout : (BridgeRoots.withdraw id (.real id)).entryOut ⟨k, hk⟩ = .absent :=
        AstEntry.opened_zero 0 0
      rw [hout]
      exact update_eq_self _ emptyAst
    · exact ih

/-- The deposit of seven units into the empty account, and a withdrawal of nothing from it. -/
theorem asset_tree_updates_sample :
    astBalance (update emptyAst (MerkleRootTarget.zero ACC_AST_DEPTH).position
        (.asset 9 BridgeRoots.amount)) 9 = astBalance emptyAst 9 + 7 ∧
      (BridgeRoots.withdraw id (.real id)).Satisfied id ∧
      ∀ b, (astBalance emptyAst b : ℤ) = astBalance emptyAst b + ∑ k,
        if (BridgeRoots.withdraw id (.real id)).assetIds k = b then
          (((BridgeRoots.withdraw id (.real id)).accoutAmts k).value : ℤ) -
            ((BridgeRoots.withdraw id (.real id)).accinAmts k).value
        else 0 := by
  have hdeposit : (BridgeRoots.deposit id (.real id)).Satisfied id :=
    BridgeRoots.real_valid.deposit_satisfied
  have hwithdraw : (BridgeRoots.withdraw id (.real id)).Satisfied id :=
    BridgeRoots.real_valid.withdraw_satisfied
  refine ⟨?_, hwithdraw, ?_⟩
  · have hnew : astRoot id (update emptyAst (MerkleRootTarget.zero ACC_AST_DEPTH).position
          (.opened 9 BridgeRoots.amount 1)) = (BridgeRoots.deposit id (.real id)).accout.accAstRoot :=
      hdeposit.ast.accout.root_update hdeposit.allocated.asset_exists_in_accout
        fun l _ => emptyAst_siblings l
    have hupdates : (astBalance (update emptyAst (MerkleRootTarget.zero ACC_AST_DEPTH).position
          (.opened 9 BridgeRoots.amount 1)) 9 : ℤ) =
        astBalance emptyAst 9 + if (9 : F) = 9 then
          (BridgeRoots.amount.value : ℤ) - U256Target.value 0 else 0 :=
      ((asset_tree_updates id).1 _ _ _ _ _ _ _ _ emptyAst _ hdeposit.ast
        hdeposit.allocated.asset_exists_in_accin hdeposit.allocated.asset_exists_in_accout
        emptyAst_root hnew (AstEntry.opened_zero 9 0 ▸ emptyAst_binds) (.refl _)).2.2.2 9
    have hseven : BridgeRoots.amount.value = 7 := by decide +kernel
    have hzero : U256Target.value 0 = 0 := by decide +kernel
    rw [AstEntry.opened_one, if_pos rfl, hseven, hzero] at hupdates
    omega
  · refine ((asset_tree_updates id).2 _ emptyAst emptyAst hwithdraw emptyAst_root emptyAst_root
      (fun k => ?_) ?_).2.2
    · rw [withdraw_astAfter]
      have hin : (BridgeRoots.withdraw id (.real id)).entryIn k = .absent :=
        AstEntry.opened_zero 0 0
      rw [hin]
      exact emptyAst_binds
    · rw [withdraw_astAfter]
      exact .refl _

end Doxa.Circuit
