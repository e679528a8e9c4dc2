import Doxa.Trees.Runs

/-!
# The check of a whole tree

`verify` computes every layer anew from the leaves, compares it with the stored one, and compares
the root computed last with the stored root. It accepts a tree exactly when some run of calls on a
new tree leaves it behind with at least one leaf (`verify_iff_run`): a node that is not the hash of
its children is noticed wherever it is stored. A tree without leaves has no root to compute, and
the check panics.
-/

namespace Doxa.Trees

open Lib

inductive VerifyError
  | layerMismatch (level : ℕ)
  | rootMismatch
  | panic
  deriving DecidableEq, Repr

/-! ## The check -/

/-- `xs[i]`, for the check. -/
def readAt {α : Type} (xs : List α) (i : ℕ) : Except VerifyError α :=
  match xs[i]? with
  | some x => .ok x
  | none => .error .panic

variable {D : Type} (H : MerkleHash D)

def MerkleTree.expectedParent (self : MerkleTree D) (prevHashes : List D) (level j : ℕ) :
    Except VerifyError D := do
  let left ← readAt prevHashes (2 * j)
  let right ← (if 2 * j + 1 < prevHashes.length then readAt prevHashes (2 * j + 1)
    else readAt self.defaultSiblings level)
  return H.hash2to1Swapped left right false

/-- The loop over pairs, which both functions below run on every level. -/
def MerkleTree.expectedLayer (self : MerkleTree D) (prevHashes : List D) (level : ℕ) :
    Except VerifyError (List D) :=
  tryLoop (fun j expected => do
    let x ← self.expectedParent H prevHashes level j
    return expected ++ [x]) ((prevHashes.length + 1) / 2) []

/-- One round of `verify_layers`. -/
def MerkleTree.verifyLayer [DecidableEq D] (self : MerkleTree D) (level : ℕ) (prevHashes : List D) :
    Except VerifyError (List D) := do
  let expected ← self.expectedLayer H prevHashes level
  let layer ← readAt self.layers level
  revertIf (expected ≠ layer) (.layerMismatch level)
  return expected

def MerkleTree.verifyLayers [DecidableEq D] (self : MerkleTree D) : Except VerifyError Unit := do
  let _ ← tryLoop (self.verifyLayer H) self.layers.length self.leaves
  return ()

/-- The length is only asserted in debug builds; `root` panics on the same trees. -/
def MerkleTree.recomputeRoot (self : MerkleTree D) : Except VerifyError D := do
  let current ← tryLoop (fun level current => self.expectedLayer H current level) self.depth self.leaves
  revertIf (current.length ≠ 1) .panic
  readAt current 0

def MerkleTree.storedRoot (self : MerkleTree D) : Except VerifyError D :=
  match self.root H with
  | .ok x => .ok x
  | .error _ => .error .panic

def MerkleTree.verifyRoot [DecidableEq D] (self : MerkleTree D) : Except VerifyError Unit := do
  let recomputedRoot ← self.recomputeRoot H
  let storedRoot ← self.storedRoot H
  revertIf (recomputedRoot ≠ storedRoot) .rootMismatch

def MerkleTree.verify [DecidableEq D] (self : MerkleTree D) : Except VerifyError Unit := do
  self.verifyLayers H
  self.verifyRoot H

/-! ## One level -/

theorem readAt_eq_ok {α : Type} {xs : List α} {i : ℕ} {x : α} : readAt xs i = .ok x ↔ xs[i]? = some x := by
  unfold readAt
  split
  · rename_i y hy
    rw [hy, Except.ok.injEq, Option.some.injEq]
  · rename_i hnone
    simp [hnone]

theorem tryLoop_succ_eq_ok {ε σ : Type*} {body : ℕ → σ → Except ε σ} {n : ℕ} {s s' : σ} :
    tryLoop body (n + 1) s = .ok s' ↔ ∃ t, tryLoop body n s = .ok t ∧ body n t = .ok s' := by
  simp only [tryLoop]
  split
  · rename_i e he
    simp [he]
  · rename_i t ht
    simp [ht]

section Levels

variable {H}
variable {t : MerkleTree D} {leaf : ℕ → D} {n level : ℕ}

theorem expectedParent_layerOf (hdefaults : t.defaultSiblings = (List.range t.depth).map (ladder H.node H.ZERO))
    (hfresh : ∀ j, n ≤ j → leaf j = H.ZERO) (hlevel : level < t.depth) {j : ℕ}
    (hj : j < width n (level + 1)) :
    t.expectedParent H (layerOf H leaf n level) level j = .ok (Lib.node H.node leaf (level + 1) j) := by
  have hhalf := width_half n level
  have hleft : readAt (layerOf H leaf n level) (2 * j) = .ok (Lib.node H.node leaf level (2 * j)) :=
    readAt_eq_ok.mpr (layerOf_getElem? H (by omega))
  have hright : (if 2 * j + 1 < (layerOf H leaf n level).length then
      readAt (layerOf H leaf n level) (2 * j + 1) else readAt t.defaultSiblings level) =
      .ok (Lib.node H.node leaf level (2 * j + 1)) := by
    rw [layerOf_length]
    split
    · rename_i hlt
      exact readAt_eq_ok.mpr (layerOf_getElem? H hlt)
    · rename_i hge
      have hladder : Lib.node H.node leaf level (2 * j + 1) = ladder H.node H.ZERO level :=
        node_eq_ladder fun x hlo _ => hfresh x ((le_mul_of_width_le (Nat.le_of_not_lt hge)).trans hlo)
      rw [readAt_eq_ok, hdefaults, List.getElem?_map, List.getElem?_range hlevel, Option.map_some, hladder]
  unfold MerkleTree.expectedParent
  rw [hleft, ok_bind, hright, ok_bind, node_succ]
  rfl

/-- The parents of the nodes of one level are the nodes of the next. -/
theorem expectedLayer_layerOf
    (hdefaults : t.defaultSiblings = (List.range t.depth).map (ladder H.node H.ZERO))
    (hfresh : ∀ j, n ≤ j → leaf j = H.ZERO) (hlevel : level < t.depth) :
    t.expectedLayer H (layerOf H leaf n level) level = .ok (layerOf H leaf n (level + 1)) := by
  have hrun : ∃ xs, tryLoop (fun j expected => do
        let x ← t.expectedParent H (layerOf H leaf n level) level j
        return expected ++ [x]) (width n (level + 1)) [] = (.ok xs : Except VerifyError (List D)) ∧
      xs = (List.range (width n (level + 1))).map (Lib.node H.node leaf (level + 1)) := by
    apply tryLoop_ok (fun k xs => xs = (List.range k).map (Lib.node H.node leaf (level + 1))) rfl
    rintro j hj xs rfl
    rw [expectedParent_layerOf hdefaults hfresh hlevel hj, ok_bind]
    refine ⟨_, rfl, ?_⟩
    rw [List.range_succ, List.map_append]
    rfl
  obtain ⟨xs, hloop, hxs⟩ := hrun
  unfold MerkleTree.expectedLayer
  rw [layerOf_length, ← width_half, hloop, hxs]
  rfl

/-- A tree of the nodes above some leaves. -/
def levelNodes (H : MerkleHash D) (t : MerkleTree D) (level : ℕ) : List D :=
  layerOf H (H.leafOf t.leaves) t.leaves.length level

theorem levelNodes_zero : levelNodes H t 0 = t.leaves := layerOf_leaves H t.leaves H.ZERO

variable (hdefaults : t.defaultSiblings = (List.range t.depth).map (ladder H.node H.ZERO))
include hdefaults

theorem expectedLayer_levelNodes (hlevel : level < t.depth) :
    t.expectedLayer H (levelNodes H t level) level = .ok (levelNodes H t (level + 1)) :=
  expectedLayer_layerOf hdefaults (fun _ hj => leafOf_fresh hj) hlevel

theorem recomputed_levels {k : ℕ} (hk : k ≤ t.depth) :
    tryLoop (fun level current => t.expectedLayer H current level) k t.leaves = .ok (levelNodes H t k) := by
  induction k with
  | zero => rw [levelNodes_zero]; rfl
  | succ k ih =>
    rw [tryLoop_succ_eq_ok]
    exact ⟨_, ih (by omega), expectedLayer_levelNodes hdefaults hk⟩

/-- The layers pass up to a level when those below it are the nodes above the leaves. -/
theorem verified_levels [DecidableEq D] {k : ℕ} (hk : k ≤ t.depth) {xs : List D} :
    tryLoop (t.verifyLayer H) k t.leaves = .ok xs ↔
      xs = levelNodes H t k ∧ ∀ l < k, t.layers[l]? = some (levelNodes H t (l + 1)) := by
  induction k generalizing xs with
  | zero =>
    rw [levelNodes_zero]
    simp [tryLoop, eq_comm]
  | succ k ih =>
    have hround : ∀ ys, t.verifyLayer H k (levelNodes H t k) = .ok ys ↔
        ys = levelNodes H t (k + 1) ∧ t.layers[k]? = some (levelNodes H t (k + 1)) := by
      intro ys
      unfold MerkleTree.verifyLayer
      rw [expectedLayer_levelNodes hdefaults hk, ok_bind, bind_eq_ok]
      simp only [readAt_eq_ok, revertIf_bind_eq_ok, not_not, pure_eq_ok]
      constructor
      · rintro ⟨layer, hlayer, rfl, rfl⟩
        exact ⟨rfl, hlayer⟩
      · rintro ⟨rfl, hlayer⟩
        exact ⟨_, hlayer, rfl, rfl⟩
    rw [tryLoop_succ_eq_ok]
    constructor
    · rintro ⟨ys, hys, hxs⟩
      obtain ⟨rfl, hbelow⟩ := (ih (by omega)).mp hys
      obtain ⟨rfl, hlayer⟩ := (hround xs).mp hxs
      refine ⟨rfl, fun l hl => ?_⟩
      rcases Nat.lt_succ_iff_lt_or_eq.mp hl with hl | rfl
      · exact hbelow l hl
      · exact hlayer
    · rintro ⟨rfl, hlayers⟩
      have hbelow := (ih (by omega)).mpr ⟨rfl, fun l hl => hlayers l (by omega)⟩
      exact ⟨_, hbelow, (hround _).mpr ⟨rfl, hlayers k (Nat.lt_succ_self k)⟩⟩

theorem verifyLayers_eq_ok [DecidableEq D] {u : Unit} :
    t.verifyLayers H = .ok u ↔ Represents H t.depth t.leaves t := by
  unfold MerkleTree.verifyLayers
  rw [bind_eq_ok]
  constructor
  · rintro ⟨xs, hloop, -⟩
    exact ⟨rfl, rfl, ((verified_levels hdefaults le_rfl).mp hloop).2, hdefaults⟩
  · intro ht
    exact ⟨_, (verified_levels hdefaults le_rfl).mpr ⟨rfl, ht.layers⟩, rfl⟩

omit hdefaults in
theorem width_eq_one {n d : ℕ} : width n d = 1 ↔ 0 < n ∧ n ≤ 2 ^ d := by
  cases n with
  | zero => simp [width_zero_leaves]
  | succ n =>
    have hpos : 0 < 2 ^ d := by positivity
    rw [width_succ, Nat.add_eq_right, Nat.div_eq_zero_iff_lt hpos]
    omega

omit hdefaults in
theorem storedRoot_eq_ok {x : D} : t.storedRoot H = .ok x ↔ t.root H = .ok x := by
  unfold MerkleTree.storedRoot
  split
  · rename_i y hy
    rw [hy, Except.ok.injEq, Except.ok.injEq]
  · rename_i e he
    simp [he]

omit hdefaults in
theorem depth_pos_of_root {x : D} (h : t.root H = .ok x) : 0 < t.depth := by
  unfold MerkleTree.depth
  by_contra hzero
  have hnil : t.layers = [] := List.eq_nil_of_length_eq_zero (by omega)
  rw [MerkleTree.root, hnil] at h
  cases h

theorem recomputeRoot_eq_ok {x : D} : t.recomputeRoot H = .ok x ↔
    (0 < t.leaves.length ∧ t.leaves.length ≤ 2 ^ t.depth) ∧
      x = Lib.node H.node (H.leafOf t.leaves) t.depth 0 := by
  unfold MerkleTree.recomputeRoot
  rw [recomputed_levels hdefaults le_rfl, ok_bind, revertIf_bind_eq_ok, not_not, levelNodes, layerOf_length,
    width_eq_one, readAt_eq_ok]
  apply and_congr_right
  intro hone
  have hfirst : 0 < width t.leaves.length t.depth := by
    rw [width_eq_one.mpr hone]
    exact Nat.one_pos
  rw [layerOf_getElem? H hfirst, Option.some.injEq, eq_comm]

theorem verify_eq_ok [DecidableEq D] : t.verify H = .ok () ↔
    0 < t.depth ∧ (0 < t.leaves.length ∧ t.leaves.length ≤ 2 ^ t.depth) ∧
      Represents H t.depth t.leaves t := by
  unfold MerkleTree.verify MerkleTree.verifyRoot
  simp only [bind_eq_ok, verifyLayers_eq_ok hdefaults, recomputeRoot_eq_ok hdefaults, storedRoot_eq_ok,
    revertIf_eq_ok, not_not]
  constructor
  · rintro ⟨-, ht, x, ⟨hone, -⟩, y, hroot, -⟩
    exact ⟨depth_pos_of_root hroot, hone, ht⟩
  · rintro ⟨hdepth, hone, ht⟩
    exact ⟨(), ht, _, ⟨hone, rfl⟩, _, root_represents ht hdepth hone.2, rfl⟩

end Levels

/-! ## The trees it accepts -/

/-- The check accepts the trees with a leaf that some run of calls on a new tree leaves behind. -/
theorem verify_iff_run [DecidableEq D] {H : MerkleHash D} (hH : H.Lawful) {depth : ℕ} (hdepth : 0 < depth)
    {t₀ t : MerkleTree D} (hnew : MerkleTree.new H depth = .ok t₀) (hsize : t.depth = depth)
    (hdefaults : t.defaultSiblings = t₀.defaultSiblings) :
    t.verify H = .ok () ↔ t.leaves ≠ [] ∧ ∃ ops, runTree H ops t₀ = some t := by
  obtain ⟨t₁, hok, hempty⟩ := new_represents H hdepth
  rw [hnew] at hok
  cases hok
  have hladder : t.defaultSiblings = (List.range t.depth).map (ladder H.node H.ZERO) := by
    rw [hdefaults, hempty.defaults, hsize]
  rw [verify_eq_ok hladder, hsize, List.length_pos_iff]
  constructor
  · rintro ⟨-, ⟨hne, hlen⟩, ht⟩
    obtain ⟨t', hrun, ht'⟩ := run_insert hH hempty t.leaves (by rwa [List.length_nil, Nat.zero_add])
    rw [List.nil_append] at ht'
    rw [ht'.unique ht] at hrun
    exact ⟨hne, _, hrun⟩
  · rintro ⟨hne, ops, hrun⟩
    obtain ⟨ht, hlen⟩ := run_represents hH hdepth hempty (Nat.zero_le _) hrun
    have hleaves := ht.leaves
    rw [← hleaves] at ht hlen
    exact ⟨hdepth, ⟨hne, hlen⟩, ht⟩

/-- A tree with one leaf. -/
theorem verify_iff_run_single : ∃ t : MerkleTree HashOut, t.leaves = [![1, 0, 0, 0]] ∧
    t.verify (hashOutput id) = .ok () := by
  have hH := hashOutput_lawful id
  obtain ⟨t₀, hnew, h₀⟩ := new_represents (hashOutput id) (by decide : 0 < 3)
  obtain ⟨t, hrun, h⟩ := run_insert hH h₀ [![1, 0, 0, 0]] (by decide)
  have hne : t.leaves ≠ [] := by
    rw [h.leaves]
    exact List.cons_ne_nil _ _
  refine ⟨t, h.leaves, ?_⟩
  exact (verify_iff_run hH (by decide) hnew h.depth_eq (h.defaults.trans h₀.defaults.symm)).mpr
    ⟨hne, _, hrun⟩

end Doxa.Trees
