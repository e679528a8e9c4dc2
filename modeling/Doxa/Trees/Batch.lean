import Doxa.Trees.Agreement
import Doxa.Trees.Proof
import Doxa.Trees.Update

/-!
# Appending a batch of leaves

`insert_batch` appends the leaves first and then writes the nodes above them, level by
level, for the whole range of new positions. A represented tree with room for the batch
then represents the longer list (`insertBatch_represents`), whatever the size of the batch
and wherever it starts.

The operations take the tree by `&mut self`, so the tree after a failed call matters too: a
call is modelled by its result and the tree it leaves. `insert` and `update_leaf` check
before they change anything. `insert_batch` finds out only after appending that the batch
does not fit, and returns the error with the leaves left in place.
-/

namespace Doxa.Trees

open Lib

/-- The errors of `insert_batch`; `indexError` is the one of `update_consecutive_paths`. -/
inductive BatchError
  | invalidBatch (batchSize numLeaves : ℕ)
  | fullTree
  | indexError
  | panic
  deriving DecidableEq, Repr

/-- The variables of the outer loop of `update_consecutive_paths`. -/
structure RangeState (D : Type) where
  layers : List (List D)
  curStart : ℕ
  curEnd : ℕ

variable {D : Type} (H : MerkleHash D)

/-- The body of the inner loop: the parent of `pos` is hashed and written. -/
def MerkleTree.updateParent (self : MerkleTree D) (prevLayer : List D) (level pos : ℕ)
    (layer : List D) : Except TreeError (List D) := do
  let parent := pos >>> 1
  let isRight := pos &&& 1 == 1
  let currentHash := prevLayer.getD pos H.ZERO
  let siblingPos := if isRight then pos - 1 else pos + 1
  let siblingHash ← self.orDefault prevLayer level siblingPos
  writeParent layer parent (H.hash2to1Swapped currentHash siblingHash isRight)

/-- The body of the outer loop. -/
def MerkleTree.updateRange (self : MerkleTree D) (level : ℕ) (s : RangeState D) :
    Except TreeError (RangeState D) := do
  let prevLayer ← self.prevLayer s.layers level
  let layer ← index s.layers level
  let layer ← tryLoop (fun k => self.updateParent H prevLayer level (s.curStart + k))
    (s.curEnd - s.curStart) layer
  return {
    layers := s.layers.set level layer
    curStart := s.curStart >>> 1
    curEnd := (s.curEnd + 1) >>> 1 }

/-- `update_consecutive_paths`, with the tree it leaves. -/
def MerkleTree.updateConsecutivePaths (self : MerkleTree D) (start batchSize : ℕ) :
    Except BatchError Unit × MerkleTree D :=
  if start + batchSize > 1 <<< self.depth then (.error .indexError, self)
  else
    match tryLoop (self.updateRange H) self.depth ⟨self.layers, start, start + batchSize⟩ with
    | .ok s => (.ok (), { self with layers := s.layers })
    | .error _ => (.error .panic, self)

/-- `insert_batch`, with the tree it leaves. -/
def MerkleTree.insertBatch (self : MerkleTree D) (leaves : List D) :
    Except BatchError Unit × MerkleTree D :=
  let batchSize := leaves.length
  if ¬ batchSize ∣ self.numLeaves then (.error (.invalidBatch batchSize self.numLeaves), self)
  else if self.numLeaves ≥ 1 <<< self.depth then (.error .fullTree, self)
  else
    let self := { self with leaves := self.leaves ++ leaves }
    self.updateConsecutivePaths H (self.numLeaves - batchSize) batchSize

/-! ## One level -/

/-- The width of a level is half of the one below, rounded up. -/
theorem width_half (n l : ℕ) : width n (l + 1) = (width n l + 1) / 2 := by
  cases n with
  | zero => rw [width_zero_leaves, width_zero_leaves]
  | succ n =>
      rw [width_succ, width_succ, pow_succ, ← Nat.div_div_eq_div_mul]
      omega

theorem width_mono {m n : ℕ} (h : m ≤ n) (l : ℕ) : width m l ≤ width n l := by
  unfold width
  exact Nat.div_le_div_right (by omega)

theorem div_le_width (n l : ℕ) : n / 2 ^ l ≤ width n l := by
  rcases width_cases n l with h | h <;> omega

variable {H} {t : MerkleTree D} {depth : ℕ} {ds xs : List D}

theorem leafOf_append_of_lt {j : ℕ} (hj : j < ds.length) :
    H.leafOf (ds ++ xs) j = H.leafOf ds j :=
  List.getD_append _ _ _ _ hj

/-- The parent of a stored position is hashed from the complete level below. -/
theorem updateParent_ok (hH : H.Lawful)
    (hdefaults : t.defaultSiblings = (List.range depth).map (ladder H.node H.ZERO)) {k pos : ℕ}
    (hk : k < depth) (hpos : pos < width ds.length k) {layer : List D}
    (hparent : pos / 2 ≤ layer.length) :
    ∃ layer', t.updateParent H (layerOf H (H.leafOf ds) ds.length k) k pos layer = .ok layer' ∧
      layer'.length = max layer.length (pos / 2 + 1) ∧
      layer'[pos / 2]? = some (Lib.node H.node (H.leafOf ds) (k + 1) (pos / 2)) ∧
      ∀ j, j ≠ pos / 2 → layer'[j]? = layer[j]? := by
  have hsibling : (if pos &&& 1 == 1 then pos - 1 else pos + 1) = siblingPos pos := by
    unfold siblingPos
    rw [Nat.and_one_is_mod]
    rcases Nat.mod_two_eq_zero_or_one pos with hpar | hpar
    · rw [hpar]
      rfl
    · rw [hpar]
      rfl
  have hcurrent : (layerOf H (H.leafOf ds) ds.length k).getD pos H.ZERO =
      Lib.node H.node (H.leafOf ds) k pos := by
    rw [List.getD_eq_getElem?_getD, layerOf_getElem? H hpos, Option.getD_some]
  unfold MerkleTree.updateParent
  simp only [hsibling, hcurrent, orDefault_layerOf hdefaults hk, hash_siblings hH,
    Nat.shiftRight_one, bind, Except.bind]
  exact writeParent_ok _ hparent

/-- What the inner loop has done when the positions from `lo` to `pos` are through: the
nodes before the parent of `pos` are new, and so is that parent once a child was seen. -/
structure RangePass (H : MerkleHash D) (ds : List D) (k lo pos : ℕ) (layer : List D) : Prop where
  small : layer.length ≤ width ds.length (k + 1)
  before : ∀ j, j < pos / 2 → layer[j]? = some (Lib.node H.node (H.leafOf ds) (k + 1) j)
  half : lo < pos → pos % 2 = 1 →
    layer[pos / 2]? = some (Lib.node H.node (H.leafOf ds) (k + 1) (pos / 2))

/-- The old layer holds the nodes before the range. -/
theorem rangePass_start (ds xs : List D) (k : ℕ) :
    RangePass H (ds ++ xs) k (ds.length / 2 ^ k) (ds.length / 2 ^ k)
      (layerOf H (H.leafOf ds) ds.length (k + 1)) := by
  refine ⟨?_, fun j hj => ?_, fun h => absurd h (lt_irrefl _)⟩
  · rw [layerOf_length]
    exact width_mono (by simp) _
  · rw [Nat.div_div_eq_div_mul, ← pow_succ] at hj
    rw [layerOf_getElem? H (hj.trans_le (div_le_width _ _))]
    refine congrArg some (node_congr fun x _ hx => (leafOf_append_of_lt ?_).symm)
    calc x < (j + 1) * 2 ^ (k + 1) := hx
      _ ≤ ds.length / 2 ^ (k + 1) * 2 ^ (k + 1) := Nat.mul_le_mul_right _ hj
      _ ≤ ds.length := Nat.div_mul_le_self _ _

theorem updateParent_rangePass (hH : H.Lawful)
    (hdefaults : t.defaultSiblings = (List.range depth).map (ladder H.node H.ZERO)) {k lo pos : ℕ}
    (hk : k < depth) (hpos : pos < width ds.length k) {layer : List D}
    (hp : RangePass H ds k lo pos layer) :
    ∃ layer', t.updateParent H (layerOf H (H.leafOf ds) ds.length k) k pos layer = .ok layer' ∧
      RangePass H ds k lo (pos + 1) layer' := by
  have hnext : pos / 2 ≤ layer.length := by
    rcases Nat.eq_zero_or_pos (pos / 2) with hzero | hsome
    · omega
    · have hlast := hp.before (pos / 2 - 1) (by omega)
      have hlt := (List.getElem?_eq_some_iff.mp hlast).1
      omega
  obtain ⟨layer', hrun, hlen, hself, hother⟩ := updateParent_ok hH hdefaults hk hpos hnext
  refine ⟨layer', hrun, ?_, fun j hj => ?_, fun _ hodd => ?_⟩
  · have hsmall := hp.small
    rw [hlen, width_half] at *
    omega
  · by_cases hj' : j = pos / 2
    · rw [hj']
      exact hself
    · rw [hother j hj']
      exact hp.before j (by omega)
  · rw [show (pos + 1) / 2 = pos / 2 by omega]
    exact hself

/-- The inner loop turns the old layer into the new one. The batch is empty only when the
tree is. -/
theorem updateRange_layer (hH : H.Lawful)
    (hdefaults : t.defaultSiblings = (List.range depth).map (ladder H.node H.ZERO))
    (hgrows : xs = [] → ds = []) {k : ℕ} (hk : k < depth) :
    tryLoop (fun i => t.updateParent H (layerOf H (H.leafOf (ds ++ xs)) (ds ++ xs).length k) k
        (ds.length / 2 ^ k + i)) (width (ds ++ xs).length k - ds.length / 2 ^ k)
      (layerOf H (H.leafOf ds) ds.length (k + 1)) =
      .ok (layerOf H (H.leafOf (ds ++ xs)) (ds ++ xs).length (k + 1)) := by
  have hle : ds.length / 2 ^ k ≤ width (ds ++ xs).length k :=
    (div_le_width _ _).trans (width_mono (by simp) _)
  obtain ⟨layer, hloop, hp⟩ := tryLoop_ok
    (n := width (ds ++ xs).length k - ds.length / 2 ^ k)
    (fun i => RangePass H (ds ++ xs) k (ds.length / 2 ^ k) (ds.length / 2 ^ k + i))
    (rangePass_start ds xs k) fun i hi layer hp => by
      have hpos : ds.length / 2 ^ k + i < width (ds ++ xs).length k := by omega
      exact updateParent_rangePass (t := t) hH hdefaults hk hpos hp
  refine hloop.trans ?_
  rw [Nat.add_sub_cancel' hle] at hp
  have hget : ∀ j, j < width (ds ++ xs).length (k + 1) →
      layer[j]? = some (Lib.node H.node (H.leafOf (ds ++ xs)) (k + 1) j) := by
    intro j hj
    rw [width_half] at hj
    by_cases hlow : j < width (ds ++ xs).length k / 2
    · exact hp.before j hlow
    · -- the last parent has one child only, which belongs to the batch
      obtain rfl : j = width (ds ++ xs).length k / 2 := by omega
      refine hp.half ?_ (by omega)
      cases xs with
      | nil =>
          obtain rfl := hgrows rfl
          rw [List.append_nil, List.length_nil, width_zero_leaves] at hj
          omega
      | cons x xs => exact div_lt_width (by simp) k
  refine congrArg Except.ok (eq_layerOf H (Nat.le_antisymm hp.small ?_) hget)
  rcases Nat.eq_zero_or_pos (width (ds ++ xs).length (k + 1)) with hzero | hsome
  · omega
  · have hlast := (List.getElem?_eq_some_iff.mp (hget _ (Nat.sub_lt hsome one_pos))).1
    omega

/-! ## The whole batch -/

/-- What `update_consecutive_paths` has done below level `k`. -/
structure RangeInv (H : MerkleHash D) (depth : ℕ) (ds xs : List D) (k : ℕ) (s : RangeState D) :
    Prop where
  curStart : s.curStart = ds.length / 2 ^ k
  curEnd : s.curEnd = width (ds ++ xs).length k
  depth_eq : s.layers.length = depth
  done : ∀ l, l < k → l < depth →
    s.layers[l]? = some (layerOf H (H.leafOf (ds ++ xs)) (ds ++ xs).length (l + 1))
  todo : ∀ l, k ≤ l → l < depth →
    s.layers[l]? = some (layerOf H (H.leafOf ds) ds.length (l + 1))

theorem updateRange_rangeInv (hH : H.Lawful) (hleaves : t.leaves = ds ++ xs)
    (hdefaults : t.defaultSiblings = (List.range depth).map (ladder H.node H.ZERO))
    (hgrows : xs = [] → ds = []) {k : ℕ} (hk : k < depth) {s : RangeState D}
    (hs : RangeInv H depth ds xs k s) :
    ∃ s', t.updateRange H k s = .ok s' ∧ RangeInv H depth ds xs (k + 1) s' := by
  have hprev : t.prevLayer s.layers k =
      .ok (layerOf H (H.leafOf (ds ++ xs)) (ds ++ xs).length k) := by
    unfold MerkleTree.prevLayer
    split
    · rename_i hzero
      rw [hzero, hleaves]
      exact congrArg Except.ok (layerOf_leaves H (ds ++ xs) H.ZERO).symm
    · rename_i hpos
      have hdone := hs.done (k - 1) (by omega) (by omega)
      rw [Nat.sub_add_cancel (Nat.pos_of_ne_zero hpos)] at hdone
      exact index_eq_ok hdone
  refine ⟨⟨s.layers.set k (layerOf H (H.leafOf (ds ++ xs)) (ds ++ xs).length (k + 1)),
    s.curStart >>> 1, (s.curEnd + 1) >>> 1⟩, ?_, ?_, ?_, ?_, ?_, ?_⟩
  · unfold MerkleTree.updateRange
    simp only [hprev, index_eq_ok (hs.todo k le_rfl hk), hs.curStart, hs.curEnd,
      updateRange_layer hH hdefaults hgrows hk, bind, Except.bind, pure, Except.pure]
  · show s.curStart >>> 1 = _
    rw [hs.curStart, Nat.shiftRight_one, pow_succ, Nat.div_div_eq_div_mul]
  · show (s.curEnd + 1) >>> 1 = _
    rw [hs.curEnd, Nat.shiftRight_one, width_half]
  · rw [List.length_set]
    exact hs.depth_eq
  · intro l hl hld
    rcases Nat.lt_succ_iff_lt_or_eq.mp hl with hlk | rfl
    · rw [List.getElem?_set_ne (by omega)]
      exact hs.done l hlk hld
    · rw [List.getElem?_set_self (by rw [hs.depth_eq]; exact hld)]
  · intro l hl hld
    rw [List.getElem?_set_ne (by omega)]
    exact hs.todo l (by omega) hld

/-- A batch that passes the three checks is appended. -/
theorem insertBatch_represents (hH : H.Lawful) (ht : Represents H depth ds t) (xs : List D)
    (hdvd : xs.length ∣ ds.length) (hroom : ds.length < 2 ^ depth)
    (hfits : ds.length + xs.length ≤ 2 ^ depth) :
    ∃ t', t.insertBatch H xs = (.ok (), t') ∧ Represents H depth (ds ++ xs) t' := by
  have hgrows : xs = [] → ds = [] := by
    rintro rfl
    exact List.length_eq_zero_iff.mp (Nat.eq_zero_of_zero_dvd hdvd)
  have hloop : ∃ s, tryLoop (({ t with leaves := ds ++ xs } : MerkleTree D).updateRange H) depth
      ⟨t.layers, ds.length, ds.length + xs.length⟩ = .ok s ∧ RangeInv H depth ds xs depth s := by
    refine tryLoop_ok (RangeInv H depth ds xs) ?_ fun k hk s hs => ?_
    · exact ⟨by simp, by simp [width], ht.depth_eq, fun l hl => absurd hl (Nat.not_lt_zero l),
        fun l _ hl => ht.layers l hl⟩
    · exact updateRange_rangeInv (t := { t with leaves := ds ++ xs }) hH rfl ht.defaults hgrows hk
        hs
  obtain ⟨s, hloop, hs⟩ := hloop
  refine ⟨{ t with leaves := ds ++ xs, layers := s.layers }, ?_, rfl, hs.depth_eq,
    fun l hl => hs.done l hl hl, ht.defaults⟩
  have hdepth : t.depth = depth := ht.depth_eq
  unfold MerkleTree.insertBatch MerkleTree.updateConsecutivePaths
  simp only [MerkleTree.numLeaves, ht.leaves, hdepth, Nat.one_shiftLeft, List.length_append,
    Nat.add_sub_cancel]
  rw [if_neg (not_not_intro hdvd), if_neg (by omega)]
  rw [show ({ t with leaves := ds ++ xs } : MerkleTree D).depth = depth from hdepth,
    if_neg (by omega), hloop]

/-- A batch that divides the leaves but goes past the last position is refused after it was
appended. -/
theorem insertBatch_overflow (hdvd : xs.length ∣ t.numLeaves) (hroom : t.numLeaves < 2 ^ t.depth)
    (hover : 2 ^ t.depth < t.numLeaves + xs.length) :
    t.insertBatch H xs = (.error .indexError, { t with leaves := t.leaves ++ xs }) := by
  unfold MerkleTree.insertBatch MerkleTree.updateConsecutivePaths
  rw [if_neg (not_not_intro hdvd), Nat.one_shiftLeft, if_neg (by omega)]
  refine if_pos ?_
  unfold MerkleTree.numLeaves MerkleTree.depth at *
  rw [List.length_append, Nat.add_sub_cancel, Nat.one_shiftLeft]
  exact hover

/-! ## Errors -/

/-- `insert`, with the tree it leaves. -/
def MerkleTree.insertInPlace (H : MerkleHash D) (self : MerkleTree D) (leaf : D) :
    Except TreeError ℕ × MerkleTree D :=
  if self.numLeaves ≥ 1 <<< self.depth then (.error .fullTree, self)
  else
    let self := { self with leaves := self.leaves ++ [leaf] }
    match self.updateMerklePath H (self.leaves.length - 1) with
    | .ok self => (.ok (self.numLeaves - 1), self)
    | .error _ => (.error .panic, self)

/-- `update_leaf`, with the tree it leaves. -/
def MerkleTree.updateLeafInPlace (H : MerkleHash D) (self : MerkleTree D) (i : ℕ) (newLeaf : D) :
    Except UpdateError Unit × MerkleTree D :=
  if i ≥ self.leaves.length then (.error (.indexError i self.leaves.length), self)
  else
    let self := { self with leaves := self.leaves.set i newLeaf }
    match self.updateMerklePath H i with
    | .ok self => (.ok (), self)
    | .error _ => (.error .panic, self)

/-- On success the tree left behind is the one `insert` returns. -/
theorem insertInPlace_of_insert {x : D} {t' : MerkleTree D} {i : ℕ}
    (h : t.insert H x = .ok (t', i)) : t.insertInPlace H x = (.ok i, t') := by
  unfold MerkleTree.insert at h
  unfold MerkleTree.insertInPlace
  split at h
  · cases h
  · rename_i hroom
    rw [if_neg hroom]
    simp only [bind, Except.bind, pure, Except.pure] at h
    split at h
    · cases h
    · rename_i t₁ hupdate
      cases h
      simp only [hupdate]

theorem updateLeafInPlace_of_updateLeaf {i : ℕ} {x : D} {t' : MerkleTree D}
    (h : t.updateLeaf H i x = .ok t') : t.updateLeafInPlace H i x = (.ok (), t') := by
  unfold MerkleTree.updateLeaf at h
  unfold MerkleTree.updateLeafInPlace
  split at h
  · cases h
  · rename_i hi
    rw [if_neg hi]
    split at h
    · rename_i t₁ hupdate
      cases h
      simp only [hupdate]
    · cases h

/-- A call that returns an error has left the tree as it was. A panic is not returned. -/
def Atomic {ε α : Type} (panic : ε) (t : MerkleTree D) (call : Except ε α × MerkleTree D) : Prop :=
  ∀ e, call.1 = .error e → e ≠ panic → call.2 = t

theorem insertInPlace_atomic (x : D) : Atomic .panic t (t.insertInPlace H x) := by
  intro e he hpanic
  unfold MerkleTree.insertInPlace at he ⊢
  split at he
  · rename_i hfull
    rw [if_pos hfull]
  · simp only at he
    split at he
    · cases he
    · cases he
      exact absurd rfl hpanic

theorem updateLeafInPlace_atomic (i : ℕ) (x : D) :
    Atomic .panic t (t.updateLeafInPlace H i x) := by
  intro e he hpanic
  unfold MerkleTree.updateLeafInPlace at he ⊢
  split at he
  · rename_i hi
    rw [if_pos hi]
  · simp only at he
    split at he
    · cases he
    · cases he
      exact absurd rfl hpanic

/-- Within the range `update_consecutive_paths` returns no error. -/
theorem updateConsecutivePaths_error {start batchSize : ℕ} {e : BatchError}
    (hrange : start + batchSize ≤ 2 ^ t.depth)
    (he : (t.updateConsecutivePaths H start batchSize).1 = .error e) : e = .panic := by
  unfold MerkleTree.updateConsecutivePaths at he
  rw [Nat.one_shiftLeft, if_neg (by omega)] at he
  split at he
  · cases he
  · cases he
    rfl

theorem insertBatch_atomic (hfits : xs.length ∣ t.numLeaves → t.numLeaves < 2 ^ t.depth →
    t.numLeaves + xs.length ≤ 2 ^ t.depth) : Atomic .panic t (t.insertBatch H xs) := by
  intro e he hpanic
  unfold MerkleTree.insertBatch at he ⊢
  by_cases hdvd : xs.length ∣ t.numLeaves
  · rw [if_neg (not_not_intro hdvd)] at he ⊢
    by_cases hfull : t.numLeaves ≥ 1 <<< t.depth
    · rw [if_pos hfull]
    · rw [if_neg hfull] at he
      -- the append is reached, and then the range check cannot fire
      rw [Nat.one_shiftLeft] at hfull
      refine absurd (updateConsecutivePaths_error ?_ he) hpanic
      have hsum := hfits hdvd (by omega)
      unfold MerkleTree.numLeaves MerkleTree.depth at *
      rw [List.length_append, Nat.add_sub_cancel]
      exact hsum
  · rw [if_pos hdvd]

/-- `insert` and `update_leaf` leave the tree of a failed call as it was. `insert_batch` does so
unless the batch passes the two checks made before the append and does not fit. -/
theorem errors_atomic (H : MerkleHash D) (t : MerkleTree D) :
    (∀ x, Atomic .panic t (t.insertInPlace H x)) ∧
      (∀ i x, Atomic .panic t (t.updateLeafInPlace H i x)) ∧
      ∀ xs : List D, Atomic .panic t (t.insertBatch H xs) ↔
        (xs.length ∣ t.numLeaves → t.numLeaves < 2 ^ t.depth →
          t.numLeaves + xs.length ≤ 2 ^ t.depth) := by
  refine ⟨insertInPlace_atomic, updateLeafInPlace_atomic,
    fun xs => ⟨fun hatomic hdvd hroom => ?_, insertBatch_atomic⟩⟩
  by_contra hover
  have hrun := insertBatch_overflow (H := H) hdvd hroom (Nat.lt_of_not_le hover)
  have hsame := hatomic .indexError (by rw [hrun]) BatchError.noConfusion
  rw [hrun] at hsame
  have hlen := congrArg (fun u => u.leaves.length) hsame
  simp only [List.length_append] at hlen
  omega

/-- Three leaves in a tree of depth two, and a batch of three more: the error leaves six. -/
theorem overflow_sample : ∃ t : MerkleTree HashOut,
    MerkleTree.insertAll (hashOutput id) 2 [![1, 0, 0, 0], ![2, 0, 0, 0], ![3, 0, 0, 0]] = .ok t ∧
      (t.insertBatch (hashOutput id) [![4, 0, 0, 0], ![5, 0, 0, 0], ![6, 0, 0, 0]]).1 =
        .error .indexError ∧
      (t.insertBatch (hashOutput id) [![4, 0, 0, 0], ![5, 0, 0, 0], ![6, 0, 0, 0]]).2.numLeaves = 6 ∧
      ¬ Atomic .panic t
        (t.insertBatch (hashOutput id) [![4, 0, 0, 0], ![5, 0, 0, 0], ![6, 0, 0, 0]]) := by
  have hthree : ∃ t, MerkleTree.insertAll (hashOutput id) 2
      [![1, 0, 0, 0], ![2, 0, 0, 0], ![3, 0, 0, 0]] = .ok t ∧ Represents (hashOutput id) 2 _ t :=
    insertAll_represents (hashOutput_lawful id) (by decide) (by decide)
  obtain ⟨t, ht, hrep⟩ := hthree
  have hn : t.numLeaves = 3 := congrArg List.length hrep.leaves
  have hd : t.depth = 2 := hrep.depth_eq
  have hrun : t.insertBatch (hashOutput id) [![4, 0, 0, 0], ![5, 0, 0, 0], ![6, 0, 0, 0]] = _ :=
    insertBatch_overflow (by rw [hn]; decide) (by rw [hn, hd]; decide) (by rw [hn, hd]; decide)
  refine ⟨t, ht, ?_, ?_, fun hatomic => ?_⟩
  · rw [hrun]
  · rw [hrun]
    show (t.leaves ++ _).length = 6
    rw [hrep.leaves]
    rfl
  · have hsame := hatomic .indexError (by rw [hrun]) BatchError.noConfusion
    rw [hrun] at hsame
    have hlen := congrArg (fun u => u.leaves.length) hsame
    simp only [List.length_append, List.length_cons] at hlen
    omega

end Doxa.Trees
