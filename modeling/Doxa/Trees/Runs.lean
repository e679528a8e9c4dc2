import Doxa.Trees.Batch
import Mathlib.Data.Finset.Sort

/-!
# Every run keeps the nodes of the complete tree

`rebuild_tree` clears the layers and walks up from every leaf in turn; the walk from an even
position already reads the leaf next to it, so after `i` walks the layers are those above the
first `seen n i` leaves. `update_sparse_paths` takes leaves that were changed in place and
rewrites their ancestors, one level at a time.

`TreeOp` is one call on the tree. A call that succeeds turns a represented tree into the tree
of the changed list of leaves (`step_represents`), so every run does (`run_represents`). A
represented tree is determined by its leaves.
-/

namespace Doxa.Trees

open Lib

variable {D : Type} (H : MerkleHash D)

def MerkleTree.rebuildTree (self : MerkleTree D) : Except TreeError (MerkleTree D) :=
  tryLoop (fun i (t : MerkleTree D) => t.updateMerklePath H i) self.leaves.length
    { self with layers := self.layers.map fun _ => [] }

/-- The variables of the outer loop of `update_sparse_paths`. -/
structure SparseState (D : Type) where
  layers : List (List D)
  active : Finset ℕ

/-- The body of the inner loop: unlike in a batch the position itself must exist. -/
def MerkleTree.updateSparseParent (self : MerkleTree D) (prevLayer : List D) (level : ℕ)
    (layer : List D) (pos : ℕ) : Except TreeError (List D) := do
  let parent := pos >>> 1
  let isRight := pos &&& 1 == 1
  let currentHash ← index prevLayer pos
  let siblingHash ← self.siblingHash prevLayer level pos
  writeParent layer parent (H.hash2to1Swapped currentHash siblingHash isRight)

/-- The body of the outer loop. -/
def MerkleTree.updateSparseLevel (self : MerkleTree D) (level : ℕ) (s : SparseState D) :
    Except TreeError (SparseState D) := do
  let prevLayer ← self.prevLayer s.layers level
  let layer ← index s.layers level
  let layer ← (s.active.sort (· ≤ ·)).foldlM (self.updateSparseParent H prevLayer level) layer
  return {
    layers := s.layers.set level layer
    active := if level + 1 < self.depth then s.active.image (· >>> 1) else s.active }

def MerkleTree.updateSparsePaths (self : MerkleTree D) (indices : List ℕ) :
    Except TreeError (MerkleTree D) :=
  if indices = [] then .ok self
  else do
    let s ← tryLoop (self.updateSparseLevel H) self.depth ⟨self.layers, indices.toFinset⟩
    return { self with layers := s.layers }

/-! ## Rebuilding -/

/-- The leaves that the first `i` walks have read. -/
def seen (n i : ℕ) : ℕ := min n (2 * ((i + 1) / 2))

variable {H} {t : MerkleTree D} {depth : ℕ} {ds : List D}

theorem leafOf_take {m j : ℕ} :
    H.leafOf (ds.take m) j = if j < m then H.leafOf ds j else H.ZERO := by
  unfold MerkleHash.leafOf
  rw [List.getD_eq_getElem?_getD, List.getElem?_take, List.getD_eq_getElem?_getD]
  split <;> rfl

/-- Neighbours have the same parent. -/
theorem succ_div_pow {i l : ℕ} (hi : i % 2 = 0) (hl : 1 ≤ l) : (i + 1) / 2 ^ l = i / 2 ^ l := by
  obtain ⟨k, rfl⟩ : ∃ k, l = k + 1 := ⟨l - 1, by omega⟩
  rw [pow_succ', ← Nat.div_div_eq_div_mul, ← Nat.div_div_eq_div_mul]
  congr 1
  omega

theorem width_seen {n i l : ℕ} (hi : i < n) (hl : 1 ≤ l) :
    i / 2 ^ l ≤ width (seen n i) l ∧
      width (seen n (i + 1)) l = max (width (seen n i) l) (i / 2 ^ l + 1) := by
  rcases Nat.mod_two_eq_zero_or_one i with heven | hodd
  · have hbefore : seen n i = i := by unfold seen; omega
    have hafter : width (seen n (i + 1)) l = i / 2 ^ l + 1 := by
      by_cases hlast : i + 1 = n
      · rw [show seen n (i + 1) = i + 1 by unfold seen; omega, width_succ]
      · rw [show seen n (i + 1) = i + 1 + 1 by unfold seen; omega, width_succ,
          succ_div_pow heven hl]
    rw [hbefore, hafter]
    rcases width_cases i l with hw | hw <;> omega
  · have hbefore : seen n i = i + 1 := by unfold seen; omega
    have hafter : seen n (i + 1) = i + 1 := by unfold seen; omega
    rw [hbefore, hafter, width_succ]
    omega

/-- The walk from position `i`, in the leaves it can read. -/
theorem rewrites_seen {i : ℕ} (hi : i < ds.length) :
    Rewrites H (H.leafOf (ds.take (seen ds.length i)))
      (H.leafOf (ds.take (seen ds.length (i + 1)))) (seen ds.length i)
      (seen ds.length (i + 1)) i := by
  refine ⟨?_, fun j hj => ?_, fun j hj => ?_, fun l hl => (width_seen hi hl).1,
    fun l hl => (width_seen hi hl).2⟩
  · unfold seen
    omega
  · rw [leafOf_take, if_neg (by omega)]
  · have hiff : j < seen ds.length (i + 1) ↔ j < seen ds.length i := by
      unfold seen
      omega
    rw [leafOf_take, leafOf_take]
    simp only [hiff]

theorem leafOf_seen {i j : ℕ} (hj : j / 2 = i / 2) :
    H.leafOf ds j = H.leafOf (ds.take (seen ds.length (i + 1))) j := by
  rw [leafOf_take]
  split
  · rfl
  · rename_i hge
    refine leafOf_fresh ?_
    unfold seen at hge
    omega

theorem rebuildTree_represents (hH : H.Lawful) (ht : Represents H depth ds t) :
    ∃ t', t.rebuildTree H = .ok t' ∧ Represents H depth ds t' := by
  have hloop : ∃ t', t.rebuildTree H = .ok t' ∧ t'.leaves = ds ∧
      t'.defaultSiblings = (List.range depth).map (ladder H.node H.ZERO) ∧
      Layered H depth (H.leafOf (ds.take (seen ds.length t.leaves.length)))
        (seen ds.length t.leaves.length) t'.layers := by
    refine tryLoop_ok (fun i (t' : MerkleTree D) => t'.leaves = ds ∧
      t'.defaultSiblings = (List.range depth).map (ladder H.node H.ZERO) ∧
      Layered H depth (H.leafOf (ds.take (seen ds.length i))) (seen ds.length i) t'.layers) ?_ ?_
    · refine ⟨ht.leaves, ht.defaults, by simpa using ht.depth_eq, fun l hl => ?_⟩
      have hnone : seen ds.length 0 = 0 := by simp [seen]
      have hlayer : t.layers[l]? = some _ := ht.layers l hl
      have hempty : layerOf H (H.leafOf (ds.take 0)) 0 (l + 1) = [] := by
        rw [layerOf, width_zero_leaves]
        rfl
      rw [List.getElem?_map, hlayer, hnone, hempty]
      rfl
    · rintro i hi t' ⟨hleaves, hdefaults, hlayers⟩
      rw [ht.leaves] at hi
      obtain ⟨layers, hupdate, hlayers'⟩ := updateMerklePath_layered (t := t') hH
        (rewrites_seen hi) (by rw [hleaves]; exact hi)
        (fun j hj => by rw [hleaves]; exact leafOf_seen hj) hdefaults hlayers
      exact ⟨_, hupdate, hleaves, hdefaults, hlayers'⟩
  obtain ⟨t', hrun, hleaves, hdefaults, hlayers⟩ := hloop
  have hall : seen ds.length t.leaves.length = ds.length := by
    rw [ht.leaves]
    unfold seen
    omega
  rw [hall, List.take_length] at hlayers
  exact ⟨t', hrun, hleaves, hlayers.depth_eq, hlayers.layers, hdefaults⟩

/-! ## Changed leaves -/

section Sparse

variable {ps : List ℕ} {k : ℕ}

theorem updateSparseParent_ok (hH : H.Lawful)
    (hdefaults : t.defaultSiblings = (List.range depth).map (ladder H.node H.ZERO))
    (hk : k < depth) {pos : ℕ} (hpos : pos < width ds.length k) {layer : List D}
    (hlen : layer.length = width ds.length (k + 1)) :
    ∃ layer', t.updateSparseParent H (layerOf H (H.leafOf ds) ds.length k) k layer pos =
        .ok layer' ∧ layer'.length = width ds.length (k + 1) ∧
      layer'[pos / 2]? = some (Lib.node H.node (H.leafOf ds) (k + 1) (pos / 2)) ∧
      ∀ j, j ≠ pos / 2 → layer'[j]? = layer[j]? := by
  have hparent : pos / 2 < layer.length := by
    rw [hlen, width_half]
    omega
  obtain ⟨layer', hwrite, hlen', hself, hother⟩ :=
    writeParent_ok (Lib.node H.node (H.leafOf ds) (k + 1) (pos / 2)) hparent.le
  have hsibling : t.siblingHash (layerOf H (H.leafOf ds) ds.length k) k pos = _ :=
    siblingHash_eq hdefaults hk (by rw [layerOf_length]; exact hpos)
      (stores_layerOf (fun _ hj => leafOf_fresh hj) k pos)
  have hcurrent : index (layerOf H (H.leafOf ds) ds.length k) pos = _ :=
    index_eq_ok (layerOf_getElem? H hpos)
  refine ⟨layer', ?_, by omega, hself, hother⟩
  unfold MerkleTree.updateSparseParent
  simp only [hcurrent, hsibling, hash_siblings hH, Nat.shiftRight_one, bind, Except.bind]
  exact hwrite

/-- The inner loop writes the parents of its positions and nothing else. -/
theorem sparse_pass (hH : H.Lawful)
    (hdefaults : t.defaultSiblings = (List.range depth).map (ladder H.node H.ZERO))
    (hk : k < depth) (hps : ∀ pos ∈ ps, pos < width ds.length k) {layer : List D}
    (hlen : layer.length = width ds.length (k + 1)) :
    ∃ layer', ps.foldlM (t.updateSparseParent H (layerOf H (H.leafOf ds) ds.length k) k) layer =
        .ok layer' ∧ layer'.length = width ds.length (k + 1) ∧
      (∀ pos ∈ ps, layer'[pos / 2]? =
        some (Lib.node H.node (H.leafOf ds) (k + 1) (pos / 2))) ∧
      ∀ j, (∀ pos ∈ ps, j ≠ pos / 2) → layer'[j]? = layer[j]? := by
  induction ps generalizing layer with
  | nil => exact ⟨layer, rfl, hlen, by simp, fun _ _ => rfl⟩
  | cons pos ps ih =>
      obtain ⟨layer₁, hrun, hlen₁, hself, hother⟩ :=
        updateSparseParent_ok (t := t) hH hdefaults hk (hps pos List.mem_cons_self) hlen
      obtain ⟨layer', hrest, hlen', hnew, hold⟩ :=
        ih (fun p hp => hps p (List.mem_cons_of_mem pos hp)) hlen₁
      refine ⟨layer', ?_, hlen', ?_, fun j hj => ?_⟩
      · rw [List.foldlM_cons, hrun]
        exact hrest
      · rintro p (_ | ⟨_, hp⟩)
        · by_cases hagain : ∃ q ∈ ps, q / 2 = pos / 2
          · obtain ⟨q, hq, hqp⟩ := hagain
            rw [← hqp]
            exact hnew q hq
          · rw [hold _ fun q hq h => hagain ⟨q, hq, h.symm⟩]
            exact hself
        · exact hnew p hp
      · rw [hold j fun p hp => hj p (List.mem_cons_of_mem pos hp),
          hother j (hj pos List.mem_cons_self)]

/-- What `update_sparse_paths` has done below level `k`, for leaves changed at `indices`. -/
structure SparseInv (H : MerkleHash D) (depth : ℕ) (old ds : List D) (indices : List ℕ) (k : ℕ)
    (s : SparseState D) : Prop where
  active : k < depth → s.active = indices.toFinset.image (· / 2 ^ k)
  depth_eq : s.layers.length = depth
  done : ∀ l, l < k → l < depth →
    s.layers[l]? = some (layerOf H (H.leafOf ds) ds.length (l + 1))
  todo : ∀ l, k ≤ l → l < depth →
    s.layers[l]? = some (layerOf H (H.leafOf old) ds.length (l + 1))

variable {old : List D} {indices : List ℕ}

/-- Only the ancestors of the changed leaves change. -/
theorem node_of_unchanged (hsame : ∀ j, j ∉ indices → H.leafOf ds j = H.leafOf old j) {l j : ℕ}
    (hj : ∀ i ∈ indices, j ≠ i / 2 ^ l) :
    Lib.node H.node (H.leafOf ds) l j = Lib.node H.node (H.leafOf old) l j := by
  refine node_congr fun x hlo hhi => hsame x fun hx => hj x hx ?_
  exact (Nat.div_eq_of_lt_le hlo hhi).symm

theorem updateSparseLevel_inv (hH : H.Lawful) (hdepth : t.layers.length = depth)
    (hleaves : t.leaves = ds)
    (hdefaults : t.defaultSiblings = (List.range depth).map (ladder H.node H.ZERO))
    (hindices : ∀ i ∈ indices, i < ds.length)
    (hsame : ∀ j, j ∉ indices → H.leafOf ds j = H.leafOf old j) (hk : k < depth)
    {s : SparseState D} (hs : SparseInv H depth old ds indices k s) :
    ∃ s', t.updateSparseLevel H k s = .ok s' ∧ SparseInv H depth old ds indices (k + 1) s' := by
  have hprev : t.prevLayer s.layers k = .ok (layerOf H (H.leafOf ds) ds.length k) := by
    unfold MerkleTree.prevLayer
    split
    · rename_i hzero
      rw [hzero, hleaves]
      exact congrArg Except.ok (layerOf_leaves H ds H.ZERO).symm
    · rename_i hpos
      have hdone := hs.done (k - 1) (by omega) (by omega)
      rw [Nat.sub_add_cancel (Nat.pos_of_ne_zero hpos)] at hdone
      exact index_eq_ok hdone
  have hmem : ∀ pos, pos ∈ s.active.sort (· ≤ ·) ↔ ∃ i ∈ indices, i / 2 ^ k = pos := by
    intro pos
    rw [Finset.mem_sort, hs.active hk]
    simp
  have hinside : ∀ pos ∈ s.active.sort (· ≤ ·), pos < width ds.length k := by
    intro pos hpos
    obtain ⟨i, hi, rfl⟩ := (hmem pos).mp hpos
    exact div_lt_width (hindices i hi) k
  obtain ⟨layer, hpass, hlen, hnew, hold⟩ := sparse_pass (t := t) hH hdefaults hk hinside
    (layerOf_length H (H.leafOf old) ds.length (k + 1))
  have hparent : ∀ i, i / 2 ^ k / 2 = i / 2 ^ (k + 1) := by
    intro i
    rw [pow_succ, Nat.div_div_eq_div_mul]
  have hlayer : layer = layerOf H (H.leafOf ds) ds.length (k + 1) := by
    refine eq_layerOf H hlen fun j hj => ?_
    by_cases hchanged : ∃ i ∈ indices, i / 2 ^ (k + 1) = j
    · obtain ⟨i, hi, rfl⟩ := hchanged
      have hread := hnew _ ((hmem _).mpr ⟨i, hi, rfl⟩)
      rwa [hparent] at hread
    · have hother : ∀ i ∈ indices, j ≠ i / 2 ^ (k + 1) :=
        fun i hi h => hchanged ⟨i, hi, h.symm⟩
      rw [node_of_unchanged hsame hother, ← layerOf_getElem? H hj]
      refine hold j fun pos hpos => ?_
      obtain ⟨i, hi, rfl⟩ := (hmem pos).mp hpos
      rw [hparent]
      exact hother i hi
  refine ⟨⟨s.layers.set k layer, if k + 1 < t.depth then s.active.image (· >>> 1) else s.active⟩,
    ?_, fun hnext => ?_, ?_, ?_, ?_⟩
  · unfold MerkleTree.updateSparseLevel
    simp only [hprev, index_eq_ok (hs.todo k le_rfl hk), hpass, bind, Except.bind, pure,
      Except.pure]
  · show (if k + 1 < t.depth then _ else _) = _
    rw [if_pos (by rw [MerkleTree.depth, hdepth]; exact hnext), hs.active hk, Finset.image_image]
    refine Finset.image_congr fun i _ => ?_
    rw [Function.comp_apply, Nat.shiftRight_one, hparent]
  · rw [List.length_set]
    exact hs.depth_eq
  · intro l hl hld
    rcases Nat.lt_succ_iff_lt_or_eq.mp hl with hlk | rfl
    · rw [List.getElem?_set_ne (by omega)]
      exact hs.done l hlk hld
    · rw [List.getElem?_set_self (by rw [hs.depth_eq]; exact hld), hlayer]
  · intro l hl hld
    rw [List.getElem?_set_ne (by omega)]
    exact hs.todo l (by omega) hld

/-- Rewriting the ancestors of the changed leaves restores the tree. -/
theorem updateSparsePaths_represents (hH : H.Lawful) (ht : Represents H depth old t)
    (hlen : ds.length = old.length) (hindices : ∀ i ∈ indices, i < ds.length)
    (hsame : ∀ j, j ∉ indices → H.leafOf ds j = H.leafOf old j) :
    ∃ t', ({ t with leaves := ds } : MerkleTree D).updateSparsePaths H indices = .ok t' ∧
      Represents H depth ds t' := by
  unfold MerkleTree.updateSparsePaths
  split
  · rename_i hnone
    subst hnone
    refine ⟨_, rfl, rfl, ht.depth_eq, fun l hl => (ht.layers l hl).trans (congrArg some ?_),
      ht.defaults⟩
    have hleaf : H.leafOf ds = H.leafOf old := funext fun j => hsame j List.not_mem_nil
    rw [hleaf, hlen]
  · have hloop : ∃ s, tryLoop (({ t with leaves := ds } : MerkleTree D).updateSparseLevel H) depth
        ⟨t.layers, indices.toFinset⟩ = .ok s ∧ SparseInv H depth old ds indices depth s := by
      refine tryLoop_ok (SparseInv H depth old ds indices) ?_ fun k hk s hs => ?_
      · refine ⟨fun _ => by simp, ht.depth_eq, fun l hl => absurd hl (Nat.not_lt_zero l),
          fun l _ hl => ?_⟩
        rw [hlen]
        exact ht.layers l hl
      · exact updateSparseLevel_inv (t := { t with leaves := ds }) hH ht.depth_eq rfl ht.defaults
          hindices hsame hk hs
    obtain ⟨s, hloop, hs⟩ := hloop
    refine ⟨{ t with leaves := ds, layers := s.layers }, ?_, rfl, hs.depth_eq,
      fun l hl => hs.done l hl hl, ht.defaults⟩
    have hdepth : ({ t with leaves := ds } : MerkleTree D).depth = depth := ht.depth_eq
    rw [hdepth, hloop]
    rfl

/-- A loop that ended has read every position from the level below. -/
theorem foldlM_updateSparseParent {ps : List ℕ} {prevLayer layer layer' : List D} {k : ℕ}
    (h : ps.foldlM (t.updateSparseParent H prevLayer k) layer = .ok layer') :
    ∀ pos ∈ ps, pos < prevLayer.length := by
  induction ps generalizing layer with
  | nil => simp
  | cons pos ps ih =>
      rw [List.foldlM_cons] at h
      obtain ⟨layer₁, hpos, hrest⟩ := bind_eq_ok.mp h
      obtain ⟨x, hread, -⟩ := bind_eq_ok.mp hpos
      rintro p (_ | ⟨_, hp⟩)
      · unfold index at hread
        split at hread
        · rename_i hget
          exact (List.getElem?_eq_some_iff.mp hget).1
        · cases hread
      · exact ih hrest p hp

theorem updateSparsePaths_inside {t' : MerkleTree D} (hdepth : 0 < t.depth)
    (h : t.updateSparsePaths H indices = .ok t') : ∀ i ∈ indices, i < t.leaves.length := by
  unfold MerkleTree.updateSparsePaths at h
  split at h
  · rename_i hnone
    rw [hnone]
    exact fun i hi => absurd hi List.not_mem_nil
  · obtain ⟨s, hloop, -⟩ := bind_eq_ok.mp h
    have hinv := tryLoop_inv
      (fun k (s : SparseState D) => (k = 0 → s = ⟨t.layers, indices.toFinset⟩) ∧
        (0 < k → ∀ i ∈ indices, i < t.leaves.length))
      ⟨fun _ => rfl, fun h => absurd h (lt_irrefl 0)⟩ (fun k _ s s' hs hstep => ?_) hloop
    · exact hinv.2 hdepth
    · refine ⟨fun h => absurd h (Nat.succ_ne_zero k), fun _ i hi => ?_⟩
      rcases Nat.eq_zero_or_pos k with rfl | hpos
      · -- the first level reads the leaves
        rw [hs.1 rfl] at hstep
        obtain ⟨leaves, hleaves, hread⟩ := bind_eq_ok.mp hstep
        obtain ⟨layer, -, hrest⟩ := bind_eq_ok.mp hread
        obtain ⟨layer', hpass, -⟩ := bind_eq_ok.mp hrest
        cases hleaves
        exact foldlM_updateSparseParent hpass i (by simpa using hi)
      · exact hs.2 hpos i hi

end Sparse

/-! ## One call -/

/-- A call on the tree. The leaves are changed in place before `update_sparse_paths`. -/
inductive TreeOp (D : Type)
  | insert (leaf : D)
  | insertBatch (leaves : List D)
  | updateLeaf (i : ℕ) (newLeaf : D)
  | rebuildTree
  | updateSparsePaths (indices : List ℕ) (newLeaf : ℕ → D)

/-- The leaves with those at `indices` replaced. -/
def replaceAt (indices : List ℕ) (newLeaf : ℕ → D) (ds : List D) : List D :=
  ds.mapIdx fun i x => if i ∈ indices then newLeaf i else x

/-- The tree after a call that succeeds. -/
def TreeOp.step (H : MerkleHash D) (t : MerkleTree D) : TreeOp D → Option (MerkleTree D)
  | .insert leaf => (t.insert H leaf).toOption.map Prod.fst
  | .insertBatch leaves =>
    match t.insertBatch H leaves with
    | (.ok _, t') => some t'
    | (.error _, _) => none
  | .updateLeaf i newLeaf => (t.updateLeaf H i newLeaf).toOption
  | .rebuildTree => (t.rebuildTree H).toOption
  | .updateSparsePaths indices newLeaf =>
    (({ t with leaves := replaceAt indices newLeaf t.leaves } : MerkleTree D).updateSparsePaths H
      indices).toOption

/-- What a call does to the list of leaves. -/
def TreeOp.leaves (ds : List D) : TreeOp D → List D
  | .insert leaf => ds ++ [leaf]
  | .insertBatch leaves => ds ++ leaves
  | .updateLeaf i newLeaf => ds.set i newLeaf
  | .rebuildTree => ds
  | .updateSparsePaths indices newLeaf => replaceAt indices newLeaf ds

theorem toOption_eq_some {ε α : Type} {r : Except ε α} {x : α} : r.toOption = some x ↔ r = .ok x := by
  cases r with
  | error e => simp [Except.toOption]
  | ok y => simp [Except.toOption]

theorem replaceAt_length (indices : List ℕ) (newLeaf : ℕ → D) (ds : List D) :
    (replaceAt indices newLeaf ds).length = ds.length := List.length_mapIdx

theorem leafOf_replaceAt {indices : List ℕ} {j : ℕ} (hj : j ∉ indices) (newLeaf : ℕ → D) :
    H.leafOf (replaceAt indices newLeaf ds) j = H.leafOf ds j := by
  unfold MerkleHash.leafOf replaceAt
  rw [List.getD_eq_getElem?_getD, List.getElem?_mapIdx, List.getD_eq_getElem?_getD]
  simp [hj]

/-- The batch passed the three checks. -/
theorem insertBatch_ok {xs : List D} {u : Unit} {t' : MerkleTree D}
    (h : t.insertBatch H xs = (.ok u, t')) : xs.length ∣ t.numLeaves ∧
      t.numLeaves < 2 ^ t.depth ∧ t.numLeaves + xs.length ≤ 2 ^ t.depth := by
  have hdvd : xs.length ∣ t.numLeaves := by
    by_contra hdvd
    unfold MerkleTree.insertBatch at h
    rw [if_pos hdvd] at h
    cases h
  have hroom : t.numLeaves < 2 ^ t.depth := by
    by_contra hfull
    unfold MerkleTree.insertBatch at h
    rw [if_neg (not_not_intro hdvd), Nat.one_shiftLeft, if_pos (Nat.le_of_not_lt hfull)] at h
    cases h
  refine ⟨hdvd, hroom, ?_⟩
  by_contra hover
  rw [insertBatch_overflow hdvd hroom (Nat.lt_of_not_le hover)] at h
  cases h

/-- A call that succeeds has done to the tree what it does to the leaves. -/
theorem step_represents (hH : H.Lawful) (hdepth : 0 < depth) (ht : Represents H depth ds t)
    (hlen : ds.length ≤ 2 ^ depth) {op : TreeOp D} {t' : MerkleTree D}
    (h : op.step H t = some t') :
    Represents H depth (op.leaves ds) t' ∧ (op.leaves ds).length ≤ 2 ^ depth := by
  have hnum : t.numLeaves = ds.length := congrArg List.length ht.leaves
  have hd : t.depth = depth := ht.depth_eq
  cases op with
  | insert leaf =>
      obtain ⟨⟨t₁, i⟩, hok, rfl⟩ := Option.map_eq_some_iff.mp h
      rw [toOption_eq_some] at hok
      have hroom : ds.length < 2 ^ depth := by
        by_contra hfull
        unfold MerkleTree.insert at hok
        rw [hnum, hd, Nat.one_shiftLeft, if_pos (by omega)] at hok
        cases hok
      obtain ⟨t₂, hrun, hrep⟩ := insert_represents hH ht hroom leaf
      rw [hok] at hrun
      cases hrun
      refine ⟨hrep, ?_⟩
      rw [TreeOp.leaves, List.length_append, List.length_singleton]
      exact hroom
  | insertBatch leaves =>
      simp only [TreeOp.step] at h
      split at h
      · rename_i u t₁ hok
        cases h
        obtain ⟨hdvd, hroom, hfits⟩ := insertBatch_ok hok
        rw [hnum] at hdvd hroom hfits
        rw [hd] at hroom hfits
        obtain ⟨t₂, hrun, hrep⟩ := insertBatch_represents hH ht _ hdvd hroom hfits
        rw [hok] at hrun
        cases hrun
        refine ⟨hrep, ?_⟩
        rw [TreeOp.leaves, List.length_append]
        exact hfits
      · cases h
  | updateLeaf i newLeaf =>
      have hok := toOption_eq_some.mp h
      have hi : i < ds.length := by
        by_contra hout
        unfold MerkleTree.updateLeaf at hok
        rw [ht.leaves, if_pos (by omega)] at hok
        cases hok
      obtain ⟨t₂, hrun, hrep⟩ := updateLeaf_represents hH ht hi newLeaf
      rw [hok] at hrun
      cases hrun
      exact ⟨hrep, by rw [TreeOp.leaves, List.length_set]; exact hlen⟩
  | rebuildTree =>
      obtain ⟨t₂, hrun, hrep⟩ := rebuildTree_represents hH ht
      have hok := toOption_eq_some.mp h
      rw [hok] at hrun
      cases hrun
      exact ⟨hrep, hlen⟩
  | updateSparsePaths indices newLeaf =>
      have hok := toOption_eq_some.mp h
      have hinside := updateSparsePaths_inside (by
        show 0 < t.depth
        rw [hd]
        exact hdepth) hok
      rw [ht.leaves] at hok hinside
      obtain ⟨t₂, hrun, hrep⟩ := updateSparsePaths_represents hH ht
        (replaceAt_length indices newLeaf ds) hinside fun j hj => leafOf_replaceAt hj newLeaf
      rw [hok] at hrun
      cases hrun
      exact ⟨hrep, by rw [TreeOp.leaves, replaceAt_length]; exact hlen⟩

/-! ## Every run -/

/-- The tree after a run of calls that all succeed. -/
def runTree (H : MerkleHash D) (ops : List (TreeOp D)) (t : MerkleTree D) :
    Option (MerkleTree D) :=
  ops.foldlM (fun t op => op.step H t) t

theorem run_represents (hH : H.Lawful) (hdepth : 0 < depth) {ops : List (TreeOp D)}
    (ht : Represents H depth ds t) (hlen : ds.length ≤ 2 ^ depth) {t' : MerkleTree D}
    (h : runTree H ops t = some t') :
    Represents H depth (ops.foldl TreeOp.leaves ds) t' ∧
      (ops.foldl TreeOp.leaves ds).length ≤ 2 ^ depth := by
  induction ops generalizing t ds with
  | nil =>
      cases h
      exact ⟨ht, hlen⟩
  | cons op ops ih =>
      unfold runTree at h
      rw [List.foldlM_cons] at h
      obtain ⟨t₁, hop, hrest⟩ := Option.bind_eq_some_iff.mp h
      obtain ⟨ht₁, hlen₁⟩ := step_represents hH hdepth ht hlen hop
      exact ih ht₁ hlen₁ hrest

/-- The leaves determine the tree. -/
theorem Represents.unique {t' : MerkleTree D} (ht : Represents H depth ds t)
    (ht' : Represents H depth ds t') : t = t' := by
  obtain ⟨leaves, layers, defaults⟩ := t
  obtain ⟨leaves', layers', defaults'⟩ := t'
  have hleaves : leaves = leaves' := ht.leaves.trans ht'.leaves.symm
  have hdefaults : defaults = defaults' := ht.defaults.trans ht'.defaults.symm
  have hlayers : layers = layers' := by
    refine List.ext_getElem? fun l => ?_
    rcases Nat.lt_or_ge l depth with hl | hl
    · exact (ht.layers l hl).trans (ht'.layers l hl).symm
    · rw [List.getElem?_eq_none (by rw [ht.depth_eq]; exact hl),
        List.getElem?_eq_none (by rw [ht'.depth_eq]; exact hl)]
  rw [hleaves, hdefaults, hlayers]

/-- Inserting leaves one by one, while there is room. -/
theorem run_insert (hH : H.Lawful) (ht : Represents H depth ds t) (xs : List D)
    (hfits : ds.length + xs.length ≤ 2 ^ depth) :
    ∃ t', runTree H (xs.map .insert) t = some t' ∧ Represents H depth (ds ++ xs) t' := by
  induction xs generalizing t ds with
  | nil => exact ⟨t, rfl, by rwa [List.append_nil]⟩
  | cons x xs ih =>
      rw [List.length_cons] at hfits
      obtain ⟨t₁, hins, ht₁⟩ := insert_represents hH ht (by omega) x
      obtain ⟨t', hrest, ht'⟩ := ih ht₁ (by rw [List.length_append, List.length_singleton]; omega)
      refine ⟨t', ?_, by rwa [List.append_assoc] at ht'⟩
      unfold runTree at hrest ⊢
      rw [List.map_cons, List.foldlM_cons]
      have hstep : TreeOp.step H t (.insert x) = some t₁ := by
        simp only [TreeOp.step, hins]
        rfl
      rw [hstep]
      exact hrest

/-- After every run of successful calls on a new tree the leaves are as the calls say, layer `l`
has one node for every `2 ^ (l + 1)` leaves begun, each node is the hash of its subtree with
missing leaves read as zero, and so is the root. A batch that is accepted is inserted leaf by
leaf. -/
theorem every_run_naive (hH : H.Lawful) {ops : List (TreeOp D)} {t₀ t : MerkleTree D}
    (hdepth : 1 ≤ depth) (hnew : MerkleTree.new H depth = .ok t₀)
    (hrun : runTree H ops t₀ = some t) :
    t.leaves = ops.foldl TreeOp.leaves [] ∧
      t.layers.length = depth ∧
      (∀ l, l < depth → ∃ layer, t.layers[l]? = some layer ∧
        layer.length = (t.numLeaves + 2 ^ (l + 1) - 1) / 2 ^ (l + 1) ∧
        ∀ i, i < layer.length → layer[i]? =
          some (Lib.node H.node (fun j => t.leaves.getD j H.ZERO) (l + 1) i)) ∧
      t.root H = .ok (Lib.node H.node (fun j => t.leaves.getD j H.ZERO) depth 0) ∧
      ∀ (xs : List D) (u : Unit) (t' : MerkleTree D), t.insertBatch H xs = (.ok u, t') →
        runTree H (xs.map .insert) t = some t' := by
  obtain ⟨t₁, hok, hempty⟩ := new_represents H hdepth
  rw [hnew] at hok
  cases hok
  obtain ⟨ht, hlen⟩ := run_represents hH hdepth hempty (Nat.zero_le _) hrun
  generalize ops.foldl TreeOp.leaves [] = ds at ht hlen
  have hleaf : (fun j => t.leaves.getD j H.ZERO) = H.leafOf ds := by
    rw [ht.leaves]
    rfl
  have hnum : t.numLeaves = ds.length := congrArg List.length ht.leaves
  have hd : t.depth = depth := ht.depth_eq
  rw [hleaf, hnum]
  refine ⟨ht.leaves, ht.depth_eq, fun l hl => ⟨_, ht.layers l hl, layerOf_length H _ _ _, ?_⟩,
    root_represents ht hdepth hlen, fun xs u t' hbatch => ?_⟩
  · intro i hi
    rw [layerOf_length] at hi
    exact layerOf_getElem? H hi
  · obtain ⟨hdvd, hroom, hfits⟩ := insertBatch_ok hbatch
    rw [hnum] at hdvd hroom hfits
    rw [hd] at hroom hfits
    obtain ⟨t₁, hone, ht₁⟩ := insertBatch_represents hH ht _ hdvd hroom hfits
    rw [hbatch] at hone
    cases hone
    obtain ⟨t₂, heach, ht₂⟩ := run_insert hH ht xs hfits
    rw [heach, ht₁.unique ht₂]

/-- Two leaves, a batch of two, an overwritten leaf, a changed leaf and a rebuild. -/
theorem every_run_naive_sample : ∃ t₀ t : MerkleTree HashOut,
    MerkleTree.new (hashOutput id) 3 = .ok t₀ ∧
      runTree (hashOutput id) [.insert ![1, 0, 0, 0], .insert ![2, 0, 0, 0],
        .insertBatch [![3, 0, 0, 0], ![4, 0, 0, 0]], .updateLeaf 1 ![5, 0, 0, 0],
        .updateSparsePaths [3] fun _ => ![6, 0, 0, 0], .rebuildTree] t₀ = some t ∧
      t.leaves = [![1, 0, 0, 0], ![5, 0, 0, 0], ![3, 0, 0, 0], ![6, 0, 0, 0]] ∧
      t.root (hashOutput id) =
        .ok (Lib.node (hashOutput id).node (fun j => t.leaves.getD j 0) 3 0) := by
  have hH := hashOutput_lawful id
  obtain ⟨t₀, hnew, h₀⟩ := new_represents (hashOutput id) (by decide : 0 < 3)
  obtain ⟨t₁, hrun₁, h₁⟩ := insert_represents hH h₀ (by decide) ![1, 0, 0, 0]
  obtain ⟨t₂, hrun₂, h₂⟩ := insert_represents hH h₁ (by decide) ![2, 0, 0, 0]
  obtain ⟨t₃, hrun₃, h₃⟩ := insertBatch_represents hH h₂ [![3, 0, 0, 0], ![4, 0, 0, 0]]
    (by decide) (by decide) (by decide)
  obtain ⟨t₄, hrun₄, h₄⟩ := updateLeaf_represents hH h₃ (i := 1) (by decide) ![5, 0, 0, 0]
  have hinside : ∀ i ∈ [3], i < (replaceAt [3] (fun _ => ![6, 0, 0, 0]) t₄.leaves).length := by
    rw [h₄.leaves, replaceAt_length]
    decide
  rw [h₄.leaves] at hinside
  obtain ⟨t₅, hrun₅, h₅⟩ := updateSparsePaths_represents hH h₄
    (replaceAt_length [3] (fun _ => ![6, 0, 0, 0]) _) hinside fun j hj => leafOf_replaceAt hj _
  obtain ⟨t₆, hrun₆, h₆⟩ := rebuildTree_represents hH h₅
  rw [← h₄.leaves] at hrun₅
  have hrun : runTree (hashOutput id) [.insert ![1, 0, 0, 0], .insert ![2, 0, 0, 0],
      .insertBatch [![3, 0, 0, 0], ![4, 0, 0, 0]], .updateLeaf 1 ![5, 0, 0, 0],
      .updateSparsePaths [3] fun _ => ![6, 0, 0, 0], .rebuildTree] t₀ = some t₆ := by
    simp only [runTree, List.foldlM_cons, List.foldlM_nil, TreeOp.step, hrun₁, hrun₂, hrun₃,
      hrun₄, hrun₅, hrun₆, Except.toOption, Option.map_some, bind, Option.bind_some, pure]
  have hnaive := every_run_naive hH (by decide) hnew hrun
  exact ⟨t₀, t₆, hnew, hrun, hnaive.1, hnaive.2.2.2.1⟩

end Doxa.Trees
