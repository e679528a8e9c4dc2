import Doxa.Client.Account

/-!
# The main pool config tree of the client

Position `subpoolId` of the tree holds the digest of the id and the root of the subpool, or zero
for a subpool without a root. Subpools are inserted one after another, 1, 2, 3, …; the first of
them also inserts the zero leaf of the reserved position `0`. Inserted in that order, up to the
last position of the tree, no subpool is refused (`insertSubpools_represents`).
-/

namespace Doxa.Client

open Lib Circuit Trees Function

variable (perm : State → State)

structure MainPoolConfigLeaf where
  subpoolConfigComm : HashOut
  subpoolId : F

/-- `MainPoolConfigLeaf::commit`. -/
def MainPoolConfigLeaf.commit (self : MainPoolConfigLeaf) : HashOut :=
  hash2to1 perm ![self.subpoolId, 0, 0, 0] self.subpoolConfigComm

/-- The node a subpool is stored as. -/
def configDigest (subpoolId : F) (subpoolRoot : HashOut) : HashOut :=
  if subpoolRoot = 0 then 0 else MainPoolConfigLeaf.commit perm ⟨subpoolRoot, subpoolId⟩

structure MainPoolConfigTree where
  inner : MerkleTree HashOut
  leafIndexMap : HashOut → Option ℕ

namespace MainPoolConfigTree

def new : Except Failure MainPoolConfigTree := do
  let inner ← treeResult (MerkleTree.new (hashOutput perm) MAIN_POOL_CONFIG_DEPTH)
  return ⟨inner, fun _ => none⟩

def root (self : MainPoolConfigTree) : Except Failure HashOut :=
  treeResult (self.inner.root (hashOutput perm))

/-- Position `0` is filled before the first subpool, the others have to be in order. -/
def seed (inner : MerkleTree HashOut) (i : ℕ) : Except Failure (MerkleTree HashOut) :=
  if i = 0 then .error (.error "subpool_id 0 is reserved and cannot be used")
  else if i = 1 then
    if inner.numLeaves = 0 then do
      let seeded ← treeResult (inner.insert (hashOutput perm) 0)
      return seeded.1
    else return inner
  else if inner.numLeaves = i then return inner
  else .error (.error (s!"cannot insert subpool_id={i}: subpool_id={i - 1} must be inserted " ++
    s!"first (tree has {inner.numLeaves} leaves, expected {i})"))

def insertSubpoolAtPosition (self : MainPoolConfigTree) (subpoolId : F) (subpoolRoot : HashOut) :
    Except Failure MainPoolConfigTree := do
  let inner ← seed perm self.inner subpoolId.val
  let digest := configDigest perm subpoolId subpoolRoot
  let inserted ← treeResult (inner.insert (hashOutput perm) digest)
  if inserted.2 ≠ subpoolId.val then .error .panic
  else return {
    inner := inserted.1
    leafIndexMap := if digest ≠ 0 then update self.leafIndexMap digest (some subpoolId.val)
      else self.leafIndexMap }

/-! ## Subpools in order -/

/-- The leaves when the subpools `1` to `count` have these roots. -/
def leavesOf (roots : ℕ → HashOut) (count : ℕ) : List HashOut :=
  if count = 0 then []
  else (List.range (count + 1)).map fun i : ℕ => configDigest perm (i : F) (roots i)

variable {perm} {roots : ℕ → HashOut} {self : MainPoolConfigTree} {count : ℕ}

theorem configDigest_zero (subpoolId : F) : configDigest perm subpoolId 0 = 0 := if_pos rfl

theorem leavesOf_length (hcount : count ≠ 0) : (leavesOf perm roots count).length = count + 1 := by
  rw [leavesOf, if_neg hcount, List.length_map, List.length_range]

/-- The next subpool, with position `0` before the first one. -/
theorem leavesOf_succ (hzero : roots 0 = 0) (count : ℕ) :
    leavesOf perm roots (count + 1) =
      (if count = 0 then [0] else leavesOf perm roots count) ++
        [configDigest perm ((count + 1 : ℕ) : F) (roots (count + 1))] := by
  unfold leavesOf
  rw [if_neg (Nat.succ_ne_zero count), List.range_succ, List.map_append, List.map_singleton]
  by_cases hcount : count = 0
  · subst hcount
    rw [if_pos rfl, List.range_succ, List.range_zero, List.nil_append, List.map_singleton, hzero,
      configDigest_zero]
  · rw [if_neg hcount, if_neg hcount]

/-- A position that is not a subpool's is zero. -/
theorem leavesOf_getD (hzero : roots 0 = 0) (count i : ℕ) :
    (leavesOf perm roots count).getD i 0 =
      if i ≤ count then configDigest perm (i : F) (roots i) else 0 := by
  by_cases hcount : count = 0
  · subst hcount
    rw [leavesOf, if_pos rfl, List.getD_nil]
    split
    · rename_i hi
      obtain rfl := Nat.le_zero.mp hi
      rw [hzero, configDigest_zero]
    · rfl
  · by_cases hi : i ≤ count
    · rw [if_pos hi, List.getD_eq_getElem _ _ (by rw [leavesOf_length hcount]; omega)]
      simp only [leavesOf, if_neg hcount, List.getElem_map, List.getElem_range]
    · rw [if_neg hi]
      refine List.getD_eq_default _ _ ?_
      rw [leavesOf_length hcount]
      omega

theorem val_natCast {i : ℕ} (hi : i < 2 ^ MAIN_POOL_CONFIG_DEPTH) : ((i : ℕ) : F).val = i :=
  ZMod.val_cast_of_lt (Nat.lt_trans hi (by decide))

theorem depth_pos : 0 < MAIN_POOL_CONFIG_DEPTH := by decide

/-- Before subpool `count + 1` its position is the next one. -/
theorem seed_represents {inner : MerkleTree HashOut}
    (h : Represents (hashOutput perm) MAIN_POOL_CONFIG_DEPTH (leavesOf perm roots count) inner) :
    ∃ seeded, seed perm inner (count + 1) = .ok seeded ∧
      Represents (hashOutput perm) MAIN_POOL_CONFIG_DEPTH
        (if count = 0 then [0] else leavesOf perm roots count) seeded := by
  have hleaves : inner.numLeaves = (leavesOf perm roots count).length := by
    rw [MerkleTree.numLeaves, h.leaves]
  unfold seed
  rw [if_neg (Nat.succ_ne_zero count)]
  by_cases hcount : count = 0
  · subst hcount
    rw [leavesOf, if_pos rfl] at h hleaves
    obtain ⟨seeded, hins, hrep⟩ := insert_represents (hashOutput_lawful perm) h (by decide) 0
    refine ⟨seeded, ?_, ?_⟩
    · rw [if_pos rfl, if_pos (hleaves.trans List.length_nil), hins]
      rfl
    · rw [if_pos rfl]
      exact hrep
  · rw [leavesOf_length hcount] at hleaves
    refine ⟨inner, ?_, ?_⟩
    · rw [if_neg (by omega), if_pos hleaves]
      rfl
    · rwa [if_neg hcount]

/-- One subpool, at its position. -/
theorem insertSubpool_represents (hzero : roots 0 = 0)
    (h : Represents (hashOutput perm) MAIN_POOL_CONFIG_DEPTH (leavesOf perm roots count) self.inner)
    (hroom : count + 1 < 2 ^ MAIN_POOL_CONFIG_DEPTH) :
    ∃ self', self.insertSubpoolAtPosition perm ((count + 1 : ℕ) : F) (roots (count + 1)) =
        .ok self' ∧
      Represents (hashOutput perm) MAIN_POOL_CONFIG_DEPTH (leavesOf perm roots (count + 1))
        self'.inner := by
  obtain ⟨seeded, hseed, hrep⟩ := seed_represents h
  have hlength : (if count = 0 then [0] else leavesOf perm roots count).length = count + 1 := by
    split
    · rename_i hcount
      rw [hcount]
      rfl
    · rename_i hcount
      exact leavesOf_length hcount
  obtain ⟨inner, hins, hrep'⟩ := insert_represents (hashOutput_lawful perm) hrep
    (by rwa [hlength]) (configDigest perm ((count + 1 : ℕ) : F) (roots (count + 1)))
  rw [hlength] at hins
  have hval := val_natCast hroom
  refine ⟨⟨inner, if configDigest perm ((count + 1 : ℕ) : F) (roots (count + 1)) ≠ 0 then
    update self.leafIndexMap (configDigest perm ((count + 1 : ℕ) : F) (roots (count + 1)))
      (some (count + 1)) else self.leafIndexMap⟩, ?_, ?_⟩
  · simp only [insertSubpoolAtPosition, hval, hseed, bind, Except.bind, hins, treeResult, ne_eq,
      not_true_eq_false, if_false, pure, Except.pure]
  · rw [leavesOf_succ hzero]
    exact hrep'

variable (perm roots) in
theorem new_empty : ∃ self, new perm = .ok self ∧
    Represents (hashOutput perm) MAIN_POOL_CONFIG_DEPTH (leavesOf perm roots 0) self.inner := by
  obtain ⟨inner, hnew, hrep⟩ := new_represents (hashOutput perm) depth_pos
  refine ⟨⟨inner, fun _ => none⟩, ?_, hrep⟩
  unfold new
  rw [hnew]
  rfl

variable (perm roots count) in
/-- The subpools `1` to `count`, one after another. -/
def insertSubpools (self : MainPoolConfigTree) : Except Failure MainPoolConfigTree :=
  (List.range' 1 count).foldlM (fun self (i : ℕ) =>
    self.insertSubpoolAtPosition perm (i : F) (roots i)) self

theorem insertSubpools_represents (hzero : roots 0 = 0)
    (hroom : count < 2 ^ MAIN_POOL_CONFIG_DEPTH)
    (h : Represents (hashOutput perm) MAIN_POOL_CONFIG_DEPTH (leavesOf perm roots 0) self.inner) :
    ∃ self', insertSubpools perm roots count self = .ok self' ∧
      Represents (hashOutput perm) MAIN_POOL_CONFIG_DEPTH (leavesOf perm roots count)
        self'.inner := by
  induction count with
  | zero => exact ⟨self, rfl, h⟩
  | succ count ih =>
    obtain ⟨self₁, hrun, hself₁⟩ := ih (by omega)
    obtain ⟨self₂, hins, hself₂⟩ := insertSubpool_represents hzero hself₁ hroom
    refine ⟨self₂, ?_, hself₂⟩
    unfold insertSubpools at hrun ⊢
    have hlast : 1 + 1 * count = count + 1 := by omega
    rw [List.range'_concat, List.foldlM_append, hrun, hlast]
    simp only [bind, Except.bind, List.foldlM_cons, List.foldlM_nil, hins, pure, Except.pure]

end MainPoolConfigTree

end Doxa.Client
