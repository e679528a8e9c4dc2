import Doxa.Lib.CompleteTree
import Doxa.Lib.Execution
import Mathlib.Data.List.GetD

/-!
# The append-only Merkle tree

`MerkleTree` of the state trees, generic in the hash of its nodes. The tree stores its
leaves and, level by level, the nodes above them; a missing right sibling is read from
`defaultSiblings`. An index out of bounds, a failed assertion and `unwrap` of nothing are
the error `panic`.

`Represents` says what the stored layers are: layer `l` holds the nodes of level `l + 1`
above the inserted leaves and no others. `new` establishes it and `insert` keeps it
(`insert_represents`), so that `root` returns the root of the complete tree.
-/

namespace Doxa.Trees

open Lib

/-- The trait `MerkleHash`; the flag says that the first argument is the right child. -/
structure MerkleHash (D : Type*) where
  ZERO : D
  hash2to1Swapped : D → D → Bool → D

structure MerkleTree (D : Type*) where
  leaves : List D
  /-- The nodes by level, from the parents of the leaves up to the root. -/
  layers : List (List D)
  defaultSiblings : List D
  deriving DecidableEq, Repr

inductive TreeError
  | fullTree
  | panic
  deriving DecidableEq, Repr

/-- `xs[i]`. -/
def index {α : Type*} (xs : List α) (i : ℕ) : Except TreeError α :=
  match xs[i]? with
  | some x => .ok x
  | none => .error .panic

theorem index_eq_ok {α : Type*} {xs : List α} {i : ℕ} {x : α} (h : xs[i]? = some x) :
    index xs i = .ok x := by
  simp only [index, h]

variable {D : Type*} (H : MerkleHash D)

def MerkleTree.new (depth : ℕ) : Except TreeError (MerkleTree D) := do
  let defaultSiblings ← tryLoop
    (fun i siblings => do
      let last ← index siblings i
      return siblings ++ [H.hash2to1Swapped last last false])
    (depth - 1) [H.ZERO]
  return { leaves := [], layers := List.replicate depth [], defaultSiblings := defaultSiblings }

def MerkleTree.depth (self : MerkleTree D) : ℕ := self.layers.length

def MerkleTree.numLeaves (self : MerkleTree D) : ℕ := self.leaves.length

def MerkleTree.root (self : MerkleTree D) : Except TreeError D :=
  match self.layers.getLast? with
  | none => .error .panic
  | some [] =>
    match self.defaultSiblings.getLast? with
    | none => .error .panic
    | some lastDefault => .ok (H.hash2to1Swapped lastDefault lastDefault false)
  | some [x] => .ok x
  | some (_ :: _ :: _) => .error .panic

/-- The variables of the loop in `update_merkle_path`. -/
structure PathState (D : Type*) where
  layers : List (List D)
  pos : ℕ
  currentHash : D

/-- A parent that exists is overwritten, the next one is appended; `debug_assert_eq!`
says that there is no third case. -/
def writeParent (layer : List D) (parent : ℕ) (x : D) : Except TreeError (List D) :=
  if parent < layer.length then .ok (layer.set parent x)
  else if parent = layer.length then .ok (layer ++ [x])
  else .error .panic

/-- The nodes the siblings of level `level` are read from. -/
def MerkleTree.prevLayer (self : MerkleTree D) (layers : List (List D)) (level : ℕ) :
    Except TreeError (List D) :=
  if level = 0 then .ok self.leaves else index layers (level - 1)

/-- The sibling of `pos`: a left sibling must exist, a missing right one is the default. -/
def MerkleTree.siblingHash (self : MerkleTree D) (prevLayer : List D) (level pos : ℕ) :
    Except TreeError D :=
  if pos &&& 1 == 1 then index prevLayer (pos - 1)
  else if pos + 1 < prevLayer.length then index prevLayer (pos + 1)
  else index self.defaultSiblings level

/-- One level of `update_merkle_path`. -/
def MerkleTree.updateLevel (self : MerkleTree D) (level : ℕ) (p : PathState D) :
    Except TreeError (PathState D) := do
  let parent := p.pos >>> 1
  let isRight := p.pos &&& 1 == 1
  let prevLayer ← self.prevLayer p.layers level
  let siblingHash ← self.siblingHash prevLayer level p.pos
  let currentHash := H.hash2to1Swapped p.currentHash siblingHash isRight
  let layer ← index p.layers level
  let layer ← writeParent layer parent currentHash
  return { layers := p.layers.set level layer, pos := parent, currentHash := currentHash }

def MerkleTree.updateMerklePath (self : MerkleTree D) (i : ℕ) :
    Except TreeError (MerkleTree D) := do
  let leaf ← index self.leaves i
  let p ← tryLoop (self.updateLevel H) self.depth ⟨self.layers, i, leaf⟩
  return { self with layers := p.layers }

/-- `insert`, with the index of the new leaf. -/
def MerkleTree.insert (self : MerkleTree D) (leaf : D) : Except TreeError (MerkleTree D × ℕ) :=
  if self.numLeaves ≥ 1 <<< self.depth then .error .fullTree
  else do
    let self := { self with leaves := self.leaves ++ [leaf] }
    let self ← self.updateMerklePath H (self.leaves.length - 1)
    return (self, self.numLeaves - 1)

/-! ## The nodes a layer stores -/

/-- The trait does not say how the flag acts; the hash in use swaps its arguments. -/
structure MerkleHash.Lawful : Prop where
  swapped : ∀ l r, H.hash2to1Swapped l r true = H.hash2to1Swapped r l false

def MerkleHash.node (H : MerkleHash D) (l r : D) : D := H.hash2to1Swapped l r false

/-- The number of nodes of level `l` above `n` leaves. -/
def width (n l : ℕ) : ℕ := (n + 2 ^ l - 1) / 2 ^ l

theorem width_zero_leaves (l : ℕ) : width 0 l = 0 := by
  have hpos : 0 < 2 ^ l := by positivity
  unfold width
  exact Nat.div_eq_of_lt (by omega)

theorem width_succ (n l : ℕ) : width (n + 1) l = n / 2 ^ l + 1 := by
  have hpos : 0 < 2 ^ l := by positivity
  unfold width
  rw [show n + 1 + 2 ^ l - 1 = n + 2 ^ l by omega, Nat.add_div_right n hpos]

/-- With `n` leaves the parent of position `n` is the last node of its level or the next
one. -/
theorem width_cases (n l : ℕ) : width n l = n / 2 ^ l ∨ width n l = n / 2 ^ l + 1 := by
  cases n with
  | zero =>
      left
      rw [width_zero_leaves, Nat.zero_div]
  | succ n =>
      rw [width_succ, Nat.succ_div]
      split
      · exact .inl rfl
      · exact .inr rfl

/-- The nodes of level `l` above the first `n` leaves. -/
def layerOf (leaf : ℕ → D) (n l : ℕ) : List D :=
  (List.range (width n l)).map (Lib.node H.node leaf l)

theorem layerOf_getElem? {leaf : ℕ → D} {n l i : ℕ} (hi : i < width n l) :
    (layerOf H leaf n l)[i]? = some (Lib.node H.node leaf l i) := by
  unfold layerOf
  rw [List.getElem?_map, List.getElem?_range hi, Option.map_some]

theorem layerOf_length (leaf : ℕ → D) (n l : ℕ) :
    (layerOf H leaf n l).length = width n l := by
  simp [layerOf]

/-- The leaves themselves are level `0`. -/
theorem layerOf_leaves (leaves : List D) (z : D) :
    layerOf H (fun i => leaves.getD i z) leaves.length 0 = leaves := by
  have hw : width leaves.length 0 = leaves.length := by simp [width]
  refine List.ext_getElem (by rw [layerOf_length, hw]) fun i hi hi' => ?_
  have hget : (layerOf H (fun i => leaves.getD i z) leaves.length 0)[i]? =
      some (Lib.node H.node (fun i => leaves.getD i z) 0 i) := layerOf_getElem? H (by omega)
  rw [List.getElem?_eq_getElem hi, Option.some.injEq] at hget
  rw [hget, Lib.node_zero, List.getD_eq_getElem _ _ hi']

theorem eq_layerOf {leaf : ℕ → D} {n l : ℕ} {xs : List D} (hlen : xs.length = width n l)
    (hget : ∀ j, j < width n l → xs[j]? = some (Lib.node H.node leaf l j)) :
    xs = layerOf H leaf n l := by
  refine List.ext_getElem? fun j => ?_
  by_cases hj : j < width n l
  · rw [hget j hj, layerOf_getElem? H hj]
  · rw [List.getElem?_eq_none (by omega),
      List.getElem?_eq_none (by rw [layerOf_length]; omega)]

/-- An inserted leaf has an ancestor on every level. -/
theorem div_lt_width {n i : ℕ} (hi : i < n) (l : ℕ) : i / 2 ^ l < width n l := by
  obtain ⟨m, rfl⟩ : ∃ m, n = m + 1 := ⟨n - 1, by omega⟩
  rw [width_succ]
  exact Nat.lt_succ_of_le (Nat.div_le_div_right (by omega))

/-- A position past the nodes of its level has only default leaves below it. -/
theorem le_mul_of_width_le {n l m : ℕ} (h : width n l ≤ m) : n ≤ m * 2 ^ l := by
  cases n with
  | zero => exact Nat.zero_le _
  | succ n =>
      rw [width_succ] at h
      exact Nat.lt_mul_of_div_lt h (by positivity)

/-- A parent that is stored, or the next one, can be written. -/
theorem writeParent_ok {layer : List D} {parent : ℕ} (x : D) (hparent : parent ≤ layer.length) :
    ∃ layer', writeParent layer parent x = .ok layer' ∧
      layer'.length = max layer.length (parent + 1) ∧
      layer'[parent]? = some x ∧ ∀ j, j ≠ parent → layer'[j]? = layer[j]? := by
  unfold writeParent
  split
  · rename_i hlt
    refine ⟨_, rfl, ?_, List.getElem?_set_self hlt, fun j hj => List.getElem?_set_ne (Ne.symm hj)⟩
    rw [List.length_set]
    omega
  · rename_i hge
    obtain rfl : parent = layer.length := by omega
    rw [if_pos rfl]
    refine ⟨_, rfl, ?_, by simp, fun j hj => ?_⟩
    · rw [List.length_append, List.length_singleton]
      omega
    · rcases Nat.lt_or_gt_of_ne hj with hlt | hgt
      · exact List.getElem?_append_left hlt
      · rw [List.getElem?_eq_none (by rw [List.length_append, List.length_singleton]; omega),
          List.getElem?_eq_none (by omega)]

/-! ## The represented tree -/

/-- The leaf function of the inserted leaves. -/
def MerkleHash.leafOf (H : MerkleHash D) (ds : List D) (i : ℕ) : D := ds.getD i H.ZERO

/-- `t` is the tree of depth `depth` over the leaves `ds`. -/
structure Represents (depth : ℕ) (ds : List D) (t : MerkleTree D) : Prop where
  leaves : t.leaves = ds
  depth_eq : t.layers.length = depth
  layers : ∀ l, l < depth → t.layers[l]? = some (layerOf H (H.leafOf ds) ds.length (l + 1))
  defaults : t.defaultSiblings = (List.range depth).map (ladder H.node H.ZERO)

theorem new_defaults (n : ℕ) :
    tryLoop (fun i siblings => do
        let last ← index siblings i
        return siblings ++ [H.hash2to1Swapped last last false]) n [H.ZERO] =
      .ok ((List.range (n + 1)).map (ladder H.node H.ZERO)) := by
  induction n with
  | zero => rfl
  | succ n ih =>
      have hlast : index ((List.range (n + 1)).map (ladder H.node H.ZERO)) n =
          .ok (ladder H.node H.ZERO n) := index_eq_ok (by simp)
      simp only [tryLoop, ih]
      rw [hlast, List.range_succ (n := n + 1), List.map_append]
      rfl

/-- A tree of positive depth can be allocated, and is empty. -/
theorem new_represents {depth : ℕ} (hdepth : 0 < depth) :
    ∃ t, MerkleTree.new H depth = .ok t ∧ Represents H depth [] t := by
  have hloop := new_defaults H (depth - 1)
  rw [Nat.sub_add_cancel hdepth] at hloop
  refine ⟨⟨[], List.replicate depth [], (List.range depth).map (ladder H.node H.ZERO)⟩, ?_,
    rfl, List.length_replicate, ?_, rfl⟩
  · unfold MerkleTree.new
    rw [hloop]
    rfl
  · intro l hl
    rw [List.getElem?_replicate, if_pos hl, layerOf, List.length_nil, width_zero_leaves]
    rfl

variable {H}

theorem leafOf_append {ds : List D} {x : D} {j : ℕ} (hj : j < ds.length) :
    H.leafOf (ds ++ [x]) j = H.leafOf ds j :=
  List.getD_append _ _ _ _ hj

theorem leafOf_fresh {ds : List D} {j : ℕ} (hj : ds.length ≤ j) : H.leafOf ds j = H.ZERO :=
  List.getD_eq_default _ _ hj

theorem leafOf_getElem? {ds : List D} {j : ℕ} (hj : j < ds.length) :
    ds[j]? = some (H.leafOf ds j) := by
  unfold MerkleHash.leafOf
  rw [List.getElem?_eq_getElem hj, List.getD_eq_getElem _ _ hj]

/-! ## Rewriting the nodes above one position -/

variable (H) in
/-- The stored layers are those above the first `n` leaves. -/
structure Layered (depth : ℕ) (leaf : ℕ → D) (n : ℕ) (layers : List (List D)) : Prop where
  depth_eq : layers.length = depth
  layers : ∀ l, l < depth → layers[l]? = some (layerOf H leaf n (l + 1))

theorem Represents.layered {depth : ℕ} {ds : List D} {t : MerkleTree D}
    (ht : Represents H depth ds t) : Layered H depth (H.leafOf ds) ds.length t.layers :=
  ⟨ht.depth_eq, ht.layers⟩

variable (H) in
/-- The layers above `m` leaves of `f` become those above `n` leaves of `g` when the nodes
above position `i` are written again. -/
structure Rewrites (f g : ℕ → D) (m n i : ℕ) : Prop where
  inside : i < n
  fresh : ∀ j, n ≤ j → g j = H.ZERO
  same : ∀ j, j / 2 ≠ i / 2 → g j = f j
  next : ∀ l, 1 ≤ l → i / 2 ^ l ≤ width m l
  grows : ∀ l, 1 ≤ l → width n l = max (width m l) (i / 2 ^ l + 1)

section Rewrite

variable {f g : ℕ → D} {m n i : ℕ}

/-- A node that is not above `i` keeps its value. -/
theorem Rewrites.node_of_ne (hr : Rewrites H f g m n i) {l j : ℕ} (hl : 1 ≤ l)
    (hj : j ≠ i / 2 ^ l) : Lib.node H.node g l j = Lib.node H.node f l j := by
  refine node_congr fun k hlo hhi => hr.same k fun hk => hj ?_
  have hdiv : ∀ x, x / 2 ^ l = x / 2 / 2 ^ (l - 1) := by
    intro x
    rw [Nat.div_div_eq_div_mul, ← pow_succ', Nat.sub_add_cancel hl]
  rw [← Nat.div_eq_of_lt_le hlo hhi, hdiv, hdiv, hk]

/-- Writing the ancestor of `i` turns the old layer into the new one. -/
theorem Rewrites.writeParent_layerOf (hr : Rewrites H f g m n i) {l : ℕ} (hl : 1 ≤ l) :
    writeParent (layerOf H f m l) (i / 2 ^ l) (Lib.node H.node g l (i / 2 ^ l)) =
      .ok (layerOf H g n l) := by
  have hnext : i / 2 ^ l ≤ (layerOf H f m l).length := by
    rw [layerOf_length]
    exact hr.next l hl
  obtain ⟨layer, hwrite, hlen, hself, hother⟩ :=
    writeParent_ok (Lib.node H.node g l (i / 2 ^ l)) hnext
  rw [hwrite]
  rw [layerOf_length, ← hr.grows l hl] at hlen
  refine congrArg Except.ok (eq_layerOf H hlen fun j hj => ?_)
  by_cases hji : j = i / 2 ^ l
  · rw [hji]
    exact hself
  · have hold : j < width m l := by
      rw [hr.grows l hl] at hj
      have hnext := hr.next l hl
      omega
    rw [hother j hji, layerOf_getElem? H hold, hr.node_of_ne hl hji]

variable (H) in
/-- The two children of the parent of `pos`, as read from the list `xs` of level `k`. -/
def Stores (xs : List D) (k pos : ℕ) (v : ℕ → D) : Prop :=
  ∀ j, j / 2 = pos / 2 →
    if j < xs.length then xs[j]? = some (v j) else v j = ladder H.node H.ZERO k

/-- A layer stores its nodes; the others have only default leaves. -/
theorem stores_layerOf (hfresh : ∀ j, n ≤ j → g j = H.ZERO) (k pos : ℕ) :
    Stores H (layerOf H g n k) k pos (Lib.node H.node g k) := by
  intro j _
  rw [layerOf_length]
  split
  · rename_i hj
    exact layerOf_getElem? H hj
  · rename_i hj
    refine node_eq_ladder fun x hlo _ => hfresh x ?_
    exact (le_mul_of_width_le (Nat.le_of_not_lt hj)).trans hlo

theorem stores_leaves {ds : List D} {pos : ℕ} (hsame : ∀ j, j / 2 = pos / 2 → H.leafOf ds j = g j) :
    Stores H ds 0 pos (Lib.node H.node g 0) := by
  intro j hj
  rw [node_zero, ← hsame j hj]
  split
  · rename_i hlt
    exact leafOf_getElem? hlt
  · rename_i hge
    exact leafOf_fresh (Nat.le_of_not_lt hge)

/-- The position of the other child of the parent. -/
def siblingPos (pos : ℕ) : ℕ := if pos % 2 = 0 then pos + 1 else pos - 1

theorem siblingPos_div (pos : ℕ) : siblingPos pos / 2 = pos / 2 := by
  unfold siblingPos
  split <;> omega

/-- The sibling the walk reads, as a value of the level. -/
theorem siblingHash_eq {t : MerkleTree D} {depth k pos : ℕ} {xs : List D} {v : ℕ → D}
    (hdefaults : t.defaultSiblings = (List.range depth).map (ladder H.node H.ZERO))
    (hk : k < depth) (hpos : pos < xs.length) (hxs : Stores H xs k pos v) :
    t.siblingHash xs k pos = .ok (v (siblingPos pos)) := by
  have hread := hxs (siblingPos pos) (siblingPos_div pos)
  unfold MerkleTree.siblingHash
  rw [Nat.and_one_is_mod]
  unfold siblingPos at hread ⊢
  rcases Nat.mod_two_eq_zero_or_one pos with hpar | hpar
  · rw [hpar, if_neg (by decide), if_pos rfl]
    rw [if_pos hpar] at hread
    split
    · rename_i hroom
      rw [if_pos hroom] at hread
      exact index_eq_ok hread
    · rename_i hroom
      rw [if_neg hroom] at hread
      rw [hread]
      refine index_eq_ok ?_
      rw [hdefaults, List.getElem?_map, List.getElem?_range hk, Option.map_some]
  · rw [hpar, if_pos (by decide), if_neg (by decide)]
    rw [if_neg (show ¬ pos % 2 = 0 by omega), if_pos (by omega)] at hread
    exact index_eq_ok hread

/-- The hash of a node and its sibling is their parent. -/
theorem hash_siblings (hH : H.Lawful) (leaf : ℕ → D) (k pos : ℕ) :
    H.hash2to1Swapped (Lib.node H.node leaf k pos) (Lib.node H.node leaf k (siblingPos pos))
      (pos &&& 1 == 1) = Lib.node H.node leaf (k + 1) (pos / 2) := by
  rw [node_parent, Nat.and_one_is_mod]
  unfold siblingPos
  rcases Nat.mod_two_eq_zero_or_one pos with hpar | hpar
  · rw [hpar]
    rfl
  · rw [hpar]
    exact hH.swapped _ _

variable (H) in
/-- What `update_merkle_path` has done below level `k` for position `i`. -/
structure PathInv (depth : ℕ) (f g : ℕ → D) (m n i k : ℕ) (p : PathState D) : Prop where
  pos : p.pos = i / 2 ^ k
  running : p.currentHash = Lib.node H.node g k (i / 2 ^ k)
  depth_eq : p.layers.length = depth
  done : ∀ l, l < k → l < depth → p.layers[l]? = some (layerOf H g n (l + 1))
  todo : ∀ l, k ≤ l → l < depth → p.layers[l]? = some (layerOf H f m (l + 1))

variable {t : MerkleTree D} {depth k : ℕ} {p : PathState D}

/-- The layer below level `k` is complete when the walk arrives there. -/
theorem prevLayer_stores (hr : Rewrites H f g m n i) (hi : i < t.leaves.length)
    (hleaves : ∀ j, j / 2 = i / 2 → H.leafOf t.leaves j = g j) (hk : k < depth)
    (hp : PathInv H depth f g m n i k p) :
    ∃ xs, t.prevLayer p.layers k = .ok xs ∧ i / 2 ^ k < xs.length ∧
      Stores H xs k (i / 2 ^ k) (Lib.node H.node g k) := by
  unfold MerkleTree.prevLayer
  split
  · rename_i hzero
    subst hzero
    rw [pow_zero, Nat.div_one]
    exact ⟨_, rfl, hi, stores_leaves hleaves⟩
  · rename_i hpos
    have hdone := hp.done (k - 1) (by omega) (by omega)
    rw [Nat.sub_add_cancel (Nat.pos_of_ne_zero hpos)] at hdone
    refine ⟨_, index_eq_ok hdone, ?_, stores_layerOf hr.fresh k _⟩
    rw [layerOf_length]
    exact div_lt_width hr.inside k

theorem updateLevel_pathInv (hH : H.Lawful) (hr : Rewrites H f g m n i)
    (hi : i < t.leaves.length) (hleaves : ∀ j, j / 2 = i / 2 → H.leafOf t.leaves j = g j)
    (hdefaults : t.defaultSiblings = (List.range depth).map (ladder H.node H.ZERO))
    (hk : k < depth) (hp : PathInv H depth f g m n i k p) :
    ∃ p', t.updateLevel H k p = .ok p' ∧ PathInv H depth f g m n i (k + 1) p' := by
  have hdiv : i / 2 ^ (k + 1) = i / 2 ^ k / 2 := by rw [pow_succ, Nat.div_div_eq_div_mul]
  obtain ⟨xs, hprev, hpos, hstores⟩ := prevLayer_stores hr hi hleaves hk hp
  have hwrite := hr.writeParent_layerOf (Nat.le_add_left 1 k)
  rw [hdiv] at hwrite
  refine ⟨⟨p.layers.set k (layerOf H g n (k + 1)), i / 2 ^ k / 2,
    Lib.node H.node g (k + 1) (i / 2 ^ k / 2)⟩, ?_, hdiv.symm, ?_, ?_, ?_, ?_⟩
  · unfold MerkleTree.updateLevel
    simp only [hp.pos, hp.running, hprev, siblingHash_eq hdefaults hk hpos hstores,
      index_eq_ok (hp.todo k le_rfl hk), hash_siblings hH, Nat.shiftRight_one, hwrite, bind,
      Except.bind, pure, Except.pure]
  · rw [hdiv]
  · rw [List.length_set]
    exact hp.depth_eq
  · intro l hl hld
    rcases Nat.lt_succ_iff_lt_or_eq.mp hl with hlk | rfl
    · rw [List.getElem?_set_ne (by omega)]
      exact hp.done l hlk hld
    · rw [List.getElem?_set_self (by rw [hp.depth_eq]; exact hld)]
  · intro l hl hld
    rw [List.getElem?_set_ne (by omega)]
    exact hp.todo l (by omega) hld

/-- `update_merkle_path` turns the old layers into the new ones. -/
theorem updateMerklePath_layered (hH : H.Lawful) (hr : Rewrites H f g m n i)
    (hi : i < t.leaves.length) (hleaves : ∀ j, j / 2 = i / 2 → H.leafOf t.leaves j = g j)
    (hdefaults : t.defaultSiblings = (List.range depth).map (ladder H.node H.ZERO))
    (hlayers : Layered H depth f m t.layers) :
    ∃ layers, t.updateMerklePath H i = .ok { t with layers := layers } ∧
      Layered H depth g n layers := by
  have hloop : ∃ p, tryLoop (t.updateLevel H) depth ⟨t.layers, i, H.leafOf t.leaves i⟩ = .ok p ∧
      PathInv H depth f g m n i depth p := by
    refine tryLoop_ok (PathInv H depth f g m n i) ?_ ?_
    · refine ⟨by simp, ?_, hlayers.depth_eq, fun l hl => absurd hl (Nat.not_lt_zero l), ?_⟩
      · rw [pow_zero, Nat.div_one, node_zero]
        exact hleaves i rfl
      · intro l _ hl
        exact hlayers.layers l hl
    · intro k hk p hp
      exact updateLevel_pathInv hH hr hi hleaves hdefaults hk hp
  obtain ⟨p, hp, hinv⟩ := hloop
  have hleaf : index t.leaves i = .ok (H.leafOf t.leaves i) := index_eq_ok (leafOf_getElem? hi)
  refine ⟨p.layers, ?_, hinv.depth_eq, fun l hl => hinv.done l hl hl⟩
  simp only [MerkleTree.updateMerklePath, MerkleTree.depth, hleaf, hlayers.depth_eq, hp, bind,
    Except.bind, pure, Except.pure]

end Rewrite

/-! ## Appending a leaf -/

theorem rewrites_append (ds : List D) (x : D) :
    Rewrites H (H.leafOf ds) (H.leafOf (ds ++ [x])) ds.length (ds ++ [x]).length ds.length := by
  have hlen : (ds ++ [x]).length = ds.length + 1 := by simp
  refine ⟨by omega, fun j hj => leafOf_fresh hj, fun j hj => ?_, fun l _ => ?_, fun l _ => ?_⟩
  · rcases Nat.lt_or_ge j ds.length with hlt | hge
    · exact leafOf_append hlt
    · have hne : j ≠ ds.length := fun h => hj (by rw [h])
      rw [leafOf_fresh (by omega), leafOf_fresh hge]
  · rcases width_cases ds.length l with hw | hw <;> omega
  · rw [hlen, width_succ]
    rcases width_cases ds.length l with hw | hw <;> omega

/-- Inserting into a tree that is not full succeeds and appends the leaf. -/
theorem insert_represents (hH : H.Lawful) {t : MerkleTree D} {depth : ℕ} {ds : List D}
    (ht : Represents H depth ds t) (hroom : ds.length < 2 ^ depth) (x : D) :
    ∃ t', t.insert H x = .ok (t', ds.length) ∧ Represents H depth (ds ++ [x]) t' := by
  obtain ⟨layers, hupdate, hlayers⟩ := updateMerklePath_layered
    (t := { t with leaves := ds ++ [x] }) hH (rewrites_append ds x) (by simp) (fun _ _ => rfl)
    ht.defaults ht.layered
  refine ⟨{ t with leaves := ds ++ [x], layers := layers }, ?_, rfl, hlayers.depth_eq,
    hlayers.layers, ht.defaults⟩
  unfold MerkleTree.insert MerkleTree.numLeaves MerkleTree.depth
  rw [ht.leaves, ht.depth_eq, Nat.one_shiftLeft, if_neg (by omega)]
  simp only [List.length_append, List.length_singleton, Nat.add_sub_cancel, hupdate, bind,
    Except.bind, pure, Except.pure]

/-- `root` of a represented tree is the root of the complete tree. -/
theorem root_represents {t : MerkleTree D} {depth : ℕ} {ds : List D}
    (ht : Represents H depth ds t) (hdepth : 0 < depth) (hlen : ds.length ≤ 2 ^ depth) :
    t.root H = .ok (Lib.node H.node (H.leafOf ds) depth 0) := by
  have hlast : t.layers.getLast? = some (layerOf H (H.leafOf ds) ds.length depth) := by
    rw [List.getLast?_eq_getElem?, ht.depth_eq, ht.layers (depth - 1) (by omega),
      Nat.sub_add_cancel hdepth]
  unfold MerkleTree.root
  rw [hlast]
  cases ds with
  | nil =>
      have hdefault : t.defaultSiblings.getLast? = some (ladder H.node H.ZERO (depth - 1)) := by
        rw [ht.defaults, List.getLast?_eq_getElem?, List.length_map, List.length_range]
        simp [hdepth]
      rw [List.length_nil, layerOf, width_zero_leaves, List.range_zero, List.map_nil, hdefault]
      refine congrArg Except.ok ?_
      rw [node_eq_ladder fun j _ _ => leafOf_fresh (Nat.zero_le j)]
      conv_rhs => rw [← Nat.sub_add_cancel hdepth]
      rfl
  | cons d ds =>
      have hw : width (d :: ds).length depth = 1 := by
        rw [List.length_cons] at hlen ⊢
        rw [width_succ, Nat.div_eq_of_lt (by omega)]
      rw [layerOf, hw]
      rfl

/-! ## Whole runs -/

/-- The tree after inserting the leaves in order. -/
def MerkleTree.insertAll (H : MerkleHash D) (depth : ℕ) (ds : List D) :
    Except TreeError (MerkleTree D) := do
  let t ← MerkleTree.new H depth
  ds.foldlM (fun t x => do
    let r ← t.insert H x
    return r.1) t

/-- At most `2 ^ depth` leaves can be inserted, and the root is that of the complete
tree. -/
theorem insertAll_represents (hH : H.Lawful) {depth : ℕ} (hdepth : 0 < depth) {ds : List D}
    (hlen : ds.length ≤ 2 ^ depth) :
    ∃ t, MerkleTree.insertAll H depth ds = .ok t ∧ Represents H depth ds t := by
  induction ds using List.reverseRecOn with
  | nil =>
      obtain ⟨t, hnew, ht⟩ := new_represents H hdepth
      refine ⟨t, ?_, ht⟩
      simp only [MerkleTree.insertAll, hnew, List.foldlM_nil, bind, Except.bind, pure, Except.pure]
  | append_singleton ds x ih =>
      rw [List.length_append, List.length_singleton] at hlen
      obtain ⟨t, hrun, ht⟩ := ih (by omega)
      obtain ⟨t', hins, ht'⟩ := insert_represents hH ht (by omega) x
      refine ⟨t', ?_, ht'⟩
      unfold MerkleTree.insertAll at hrun ⊢
      cases hnew : MerkleTree.new H depth with
      | error e => simp [hnew, bind, Except.bind] at hrun
      | ok t₀ =>
          simp only [hnew, bind, Except.bind] at hrun ⊢
          rw [List.foldlM_append]
          simp only [bind, Except.bind, pure, Except.pure] at hrun ⊢
          simp only [hrun, List.foldlM_cons, List.foldlM_nil, bind, Except.bind, pure, Except.pure,
            hins]

end Doxa.Trees
