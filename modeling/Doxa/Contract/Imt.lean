import Doxa.Contract.Calldata
import Doxa.Lib.CompleteTree
import Mathlib.Logic.Function.Basic
import Mathlib.Data.Nat.Bitwise

/-!
# The incremental Merkle tree of `IMTLib`

`init` builds the zero ladder and seeds the cached left siblings, `appendLeaf` walks the
path of the next position. The contract stores one filled subtree per level; the
invariant `Counter` says which node each of them is: when bit `i` of the leaf count is
set, `filledSubtrees i` is the last complete node of level `i`. One append keeps it
(`appendLeaf_counter`), so the current root is the root of the complete tree over the
appended leaves.
-/

namespace Doxa.Contract

open Lib Function

structure ImtState where
  leafCount : ℕ
  currentRoot : U256
  filledSubtrees : ℕ → U256
  zeros : ℕ → U256
  confirmedRoots : U256 → Bool
  validatedBatchRoots : U256 → Bool
  leaves : ℕ → U256

inductive ImtError
  | treeFull
  deriving DecidableEq, Repr

/-- The storage of the library before the constructor runs. -/
def ImtState.empty : ImtState where
  leafCount := 0
  currentRoot := 0
  filledSubtrees := fun _ => 0
  zeros := fun _ => 0
  confirmedRoots := fun _ => false
  validatedBatchRoots := fun _ => false
  leaves := fun _ => 0

variable (compress : U256 → U256 → U256)

def ImtState.init (self : ImtState) (treeDepth : ℕ) : ImtState :=
  let zeros := forLoop (fun i zeros => update zeros (i + 1) (compress (zeros i) (zeros i)))
    treeDepth (update self.zeros 0 0)
  let filled := forLoop (fun i filled => update filled i (zeros i)) treeDepth self.filledSubtrees
  { self with
    zeros := zeros
    filledSubtrees := filled
    currentRoot := zeros treeDepth
    confirmedRoots := update self.confirmedRoots (zeros treeDepth) true }

/-- The walk of `appendLeaf`, one level. -/
def appendStep (self : ImtState) (i : ℕ) (w : (ℕ → U256) × U256) : (ℕ → U256) × U256 :=
  if (self.leafCount >>> i) &&& 1 = 0 then
    -- a left child: cached, and paired with the zero sibling
    (update w.1 i w.2, compress w.2 (self.zeros i))
  else
    (w.1, compress (w.1 i) w.2)

def ImtState.appendLeaf (self : ImtState) (treeDepth : ℕ) (leaf : U256) :
    Except ImtError ImtState :=
  if self.leafCount ≥ 1 <<< treeDepth then .error .treeFull
  else
    let w := forLoop (appendStep compress self) treeDepth (self.filledSubtrees, leaf)
    .ok { self with
      leaves := update self.leaves self.leafCount leaf
      validatedBatchRoots := update self.validatedBatchRoots leaf true
      filledSubtrees := w.1
      leafCount := self.leafCount + 1
      currentRoot := w.2
      confirmedRoots := update self.confirmedRoots w.2 true }

/-! ## The zero ladder -/

theorem zeros_loop (zeros : ℕ → U256) (n : ℕ) (h0 : zeros 0 = 0) :
    ∀ i, i ≤ n → forLoop (fun i zeros => update zeros (i + 1) (compress (zeros i) (zeros i)))
      n zeros i = ladder compress 0 i := by
  refine forLoop_inv (fun n (z : ℕ → U256) => ∀ i, i ≤ n → z i = ladder compress 0 i) ?_ ?_
  · intro i hi
    obtain rfl : i = 0 := by omega
    exact h0
  · intro k _ z hz i hi
    by_cases hik : i = k + 1
    · subst hik
      simp [hz k le_rfl]
    · rw [update_of_ne hik]
      exact hz i (by omega)

theorem init_zeros {treeDepth i : ℕ} (hi : i ≤ treeDepth) (self : ImtState) :
    (self.init compress treeDepth).zeros i = ladder compress 0 i :=
  zeros_loop compress _ treeDepth (update_self ..) i hi

theorem init_currentRoot (self : ImtState) (treeDepth : ℕ) :
    (self.init compress treeDepth).currentRoot = ladder compress 0 treeDepth :=
  zeros_loop compress _ treeDepth (update_self ..) treeDepth le_rfl

/-! ## The binary counter -/

/-- The tree over the leaves `leaf`, of which the first `imt.leafCount` have been
appended. -/
structure Counter (treeDepth : ℕ) (leaf : ℕ → U256) (imt : ImtState) : Prop where
  zeros : ∀ i, i ≤ treeDepth → imt.zeros i = ladder compress 0 i
  fresh : ∀ j, imt.leafCount ≤ j → leaf j = 0
  filled : ∀ i, i < treeDepth → imt.leafCount / 2 ^ i % 2 = 1 →
    imt.filledSubtrees i = node compress leaf i (imt.leafCount / 2 ^ i - 1)
  root : imt.currentRoot = node compress leaf treeDepth 0
  recorded : ∀ i, imt.leaves i = leaf i

theorem counter_init (treeDepth : ℕ) :
    Counter compress treeDepth (fun _ => 0) (ImtState.empty.init compress treeDepth) where
  zeros := fun _ hi => init_zeros compress hi _
  fresh := fun _ _ => rfl
  filled := by
    intro i _ hbit
    simp [ImtState.init, ImtState.empty] at hbit
  root := by
    rw [init_currentRoot]
    exact (node_eq_ladder fun _ _ _ => rfl).symm
  recorded := fun _ => rfl

/-- What the walk has done below level `k`: the running node is the ancestor of the new
leaf, and the levels where it was a left child are cached. -/
structure WalkInv (imt : ImtState) (leaf : ℕ → U256) (k : ℕ) (w : (ℕ → U256) × U256) :
    Prop where
  running : w.2 = node compress leaf k (imt.leafCount / 2 ^ k)
  cached : ∀ i, i < k → imt.leafCount / 2 ^ i % 2 = 0 →
    w.1 i = node compress leaf i (imt.leafCount / 2 ^ i)
  kept : ∀ i, (i < k → imt.leafCount / 2 ^ i % 2 = 1) → w.1 i = imt.filledSubtrees i

variable {compress} {treeDepth : ℕ} {leaf : ℕ → U256} {imt imt' : ImtState}

/-- The leaves below the left sibling of a right child on the path of position `n` are
all before `n`. -/
theorem leaf_before {n i j : ℕ} (hodd : n / 2 ^ i % 2 = 1) (hj : j < (n / 2 ^ i - 1 + 1) * 2 ^ i) :
    j < n := by
  have hpos : 0 < n / 2 ^ i := Nat.pos_of_ne_zero fun h => by simp [h] at hodd
  rw [Nat.sub_add_cancel hpos] at hj
  exact hj.trans_le (Nat.div_mul_le_self n _)

/-- The leaves below the right sibling of a node on the path of position `n` are all
after `n`. -/
theorem leaf_after {n i j : ℕ} (hj : (n / 2 ^ i + 1) * 2 ^ i ≤ j) : n < j :=
  lt_of_lt_of_le (Nat.lt_mul_of_div_lt (Nat.lt_succ_self _) (by positivity)) hj

/-- A complete left sibling is not touched by the new leaf. -/
theorem node_before {x : U256} {n i : ℕ} (hodd : n / 2 ^ i % 2 = 1) :
    node compress (update leaf n x) i (n / 2 ^ i - 1) = node compress leaf i (n / 2 ^ i - 1) := by
  refine node_congr fun j _ hhi => ?_
  have hj := leaf_before hodd hhi
  rw [update_of_ne (by omega)]

theorem appendStep_walk (hC : Counter compress treeDepth leaf imt) (x : U256) {k : ℕ}
    (hk : k < treeDepth) {w : (ℕ → U256) × U256}
    (hw : WalkInv compress imt (update leaf imt.leafCount x) k w) :
    WalkInv compress imt (update leaf imt.leafCount x) (k + 1) (appendStep compress imt k w) := by
  have hdiv : imt.leafCount / 2 ^ (k + 1) = imt.leafCount / 2 ^ k / 2 := by
    rw [pow_succ, Nat.div_div_eq_div_mul]
  have hbit : (imt.leafCount >>> k) &&& 1 = imt.leafCount / 2 ^ k % 2 := by
    rw [Nat.shiftRight_eq_div_pow, Nat.and_one_is_mod]
  unfold appendStep
  rw [hbit]
  by_cases hpar : imt.leafCount / 2 ^ k % 2 = 0
  · rw [if_pos hpar]
    refine ⟨?_, ?_, ?_⟩
    · -- the right sibling has only fresh leaves
      rw [hdiv, node_parent, if_pos hpar, hC.zeros k hk.le, ← hw.running]
      refine congrArg (compress w.2) ?_
      refine (node_eq_ladder fun j hlo _ => ?_).symm
      have hj := leaf_after hlo
      rw [update_of_ne (by omega)]
      exact hC.fresh j (by omega)
    · intro i hi heven
      rcases Nat.lt_succ_iff_lt_or_eq.mp hi with hik | rfl
      · exact (update_of_ne hik.ne _ _).trans (hw.cached i hik heven)
      · exact (update_self ..).trans hw.running
    · intro i hi
      have hik : i ≠ k := by
        rintro rfl
        have := hi (Nat.lt_succ_self i)
        omega
      exact (update_of_ne hik _ _).trans (hw.kept i fun h => hi (Nat.lt_succ_of_lt h))
  · rw [if_neg hpar]
    have hodd : imt.leafCount / 2 ^ k % 2 = 1 := by omega
    refine ⟨?_, ?_, ?_⟩
    · -- the left sibling is complete, and still cached
      rw [hdiv, node_parent, if_neg hpar, ← hw.running, node_before hodd,
        ← hC.filled k hk hodd, hw.kept k fun h => absurd h (lt_irrefl k)]
    · intro i hi heven
      rcases Nat.lt_succ_iff_lt_or_eq.mp hi with hik | rfl
      · exact hw.cached i hik heven
      · omega
    · intro i hi
      exact hw.kept i fun h => hi (Nat.lt_succ_of_lt h)

theorem append_walk (hC : Counter compress treeDepth leaf imt) (x : U256) :
    WalkInv compress imt (update leaf imt.leafCount x) treeDepth
      (forLoop (appendStep compress imt) treeDepth (imt.filledSubtrees, x)) := by
  refine forLoop_inv (WalkInv compress imt (update leaf imt.leafCount x)) ?_ ?_
  · exact ⟨by simp, fun i hi => absurd hi (Nat.not_lt_zero i), fun _ _ => rfl⟩
  · intro i hi t ht
    exact appendStep_walk hC x hi ht

/-! ## One append -/

/-- Everything a successful append does. -/
theorem appendLeaf_ok {x : U256} (h : imt.appendLeaf compress treeDepth x = .ok imt') :
    imt.leafCount < 2 ^ treeDepth ∧
      ∃ w, w = forLoop (appendStep compress imt) treeDepth (imt.filledSubtrees, x) ∧
        imt' = { imt with
          leaves := update imt.leaves imt.leafCount x
          validatedBatchRoots := update imt.validatedBatchRoots x true
          filledSubtrees := w.1
          leafCount := imt.leafCount + 1
          currentRoot := w.2
          confirmedRoots := update imt.confirmedRoots w.2 true } := by
  unfold ImtState.appendLeaf at h
  split at h
  · cases h
  · rename_i hfull
    rw [Nat.one_shiftLeft, not_le] at hfull
    cases h
    exact ⟨hfull, _, rfl, rfl⟩

theorem appendLeaf_isOk {x : U256} (hroom : imt.leafCount < 2 ^ treeDepth) :
    ∃ imt', imt.appendLeaf compress treeDepth x = .ok imt' := by
  unfold ImtState.appendLeaf
  rw [Nat.one_shiftLeft, if_neg (by omega)]
  exact ⟨_, rfl⟩

theorem appendLeaf_full {x : U256} (hfull : 2 ^ treeDepth ≤ imt.leafCount) :
    imt.appendLeaf compress treeDepth x = .error .treeFull := by
  unfold ImtState.appendLeaf
  rw [Nat.one_shiftLeft, if_pos hfull]

theorem appendLeaf_leafCount {x : U256} (h : imt.appendLeaf compress treeDepth x = .ok imt') :
    imt'.leafCount = imt.leafCount + 1 := by
  obtain ⟨-, w, -, rfl⟩ := appendLeaf_ok h
  rfl

theorem appendLeaf_leaves {x : U256} (h : imt.appendLeaf compress treeDepth x = .ok imt') :
    imt'.leaves = update imt.leaves imt.leafCount x := by
  obtain ⟨-, w, -, rfl⟩ := appendLeaf_ok h
  rfl

/-- A confirmed root stays confirmed, and the new current root is one. -/
theorem appendLeaf_confirmedRoots {x : U256}
    (h : imt.appendLeaf compress treeDepth x = .ok imt') :
    imt'.confirmedRoots imt'.currentRoot = true ∧
      ∀ r, imt.confirmedRoots r = true → imt'.confirmedRoots r = true := by
  obtain ⟨-, w, -, rfl⟩ := appendLeaf_ok h
  refine ⟨update_self .., fun r hr => ?_⟩
  by_cases hrw : r = w.2
  · subst hrw
    exact update_self ..
  · exact (update_of_ne hrw _ _).trans hr

/-- When the counter moves from `n` to `n + 1`, level `i` moves on by at most one. -/
theorem succ_div_pow {n i : ℕ} (hbit : (n + 1) / 2 ^ i % 2 = 1) :
    (n / 2 ^ i % 2 = 0 ∧ (n + 1) / 2 ^ i - 1 = n / 2 ^ i) ∨
      (n / 2 ^ i % 2 = 1 ∧ (n + 1) / 2 ^ i = n / 2 ^ i) := by
  rw [Nat.succ_div] at hbit ⊢
  generalize n / 2 ^ i = m at hbit ⊢
  split at hbit
  · left
    rename_i hdvd
    rw [if_pos hdvd]
    omega
  · right
    rename_i hdvd
    rw [if_neg hdvd]
    exact ⟨hbit, rfl⟩

theorem appendLeaf_counter {x : U256} (hC : Counter compress treeDepth leaf imt)
    (h : imt.appendLeaf compress treeDepth x = .ok imt') :
    Counter compress treeDepth (update leaf imt.leafCount x) imt' := by
  have hw := append_walk hC x
  obtain ⟨hroom, w, rfl, rfl⟩ := appendLeaf_ok h
  refine ⟨hC.zeros, ?_, ?_, ?_, ?_⟩
  · intro j hj
    have hj' : imt.leafCount + 1 ≤ j := hj
    rw [update_of_ne (by omega)]
    exact hC.fresh j (by omega)
  · intro i hi hbit
    change _ = node compress _ i ((imt.leafCount + 1) / 2 ^ i - 1)
    rcases succ_div_pow hbit with ⟨heven, hnext⟩ | ⟨hodd, hsame⟩
    · -- the new leaf completed the node of this level that was open
      rw [hnext]
      exact hw.cached i hi heven
    · rw [hsame, node_before hodd, ← hC.filled i hi hodd]
      exact hw.kept i fun _ => hodd
  · have hroot := hw.running
    rw [Nat.div_eq_of_lt hroom] at hroot
    exact hroot
  · intro i
    change update imt.leaves imt.leafCount x i = _
    by_cases hi : i = imt.leafCount
    · subst hi
      simp
    · rw [update_of_ne hi, update_of_ne hi]
      exact hC.recorded i

/-! ## Whole runs -/

/-- The leaf function of a list of appended values. -/
def leafOf (xs : List U256) (i : ℕ) : U256 := xs.getD i 0

/-- The root of the full tree of depth `treeDepth` over `xs`, then zero leaves. -/
def fullRoot (compress : U256 → U256 → U256) (treeDepth : ℕ) (xs : List U256) : U256 :=
  node compress (leafOf xs) treeDepth 0

/-- The tree after any sequence of calls of `appendLeaf` on the initialised tree. -/
def appendRun (compress : U256 → U256 → U256) (treeDepth : ℕ) (xs : List U256) : ImtState :=
  run (fun x s => ImtState.appendLeaf compress s treeDepth x)
    (ImtState.empty.init compress treeDepth) xs

theorem leafOf_concat (xs : List U256) (x : U256) :
    leafOf (xs ++ [x]) = update (leafOf xs) xs.length x := by
  funext i
  unfold leafOf
  rcases lt_trichotomy i xs.length with hi | rfl | hi
  · rw [update_of_ne hi.ne, List.getD_append _ _ _ _ hi]
  · simp
  · rw [update_of_ne hi.ne', List.getD_eq_default _ _ (by simpa using Nat.succ_le_of_lt hi),
      List.getD_eq_default _ _ hi.le]

/-- After at most `2 ^ treeDepth` appends the counter stands at their number. -/
theorem appendRun_counter (compress : U256 → U256 → U256) {xs : List U256} (hlen : xs.length ≤ 2 ^ treeDepth) :
    Counter compress treeDepth (leafOf xs) (appendRun compress treeDepth xs) ∧
      (appendRun compress treeDepth xs).leafCount = xs.length := by
  induction xs using List.reverseRecOn with
  | nil => exact ⟨counter_init compress treeDepth, rfl⟩
  | append_singleton xs x ih =>
      rw [List.length_append, List.length_singleton] at hlen
      obtain ⟨hC, hcount⟩ := ih (by omega)
      obtain ⟨imt', h⟩ : ∃ imt', (appendRun compress treeDepth xs).appendLeaf compress treeDepth x =
          .ok imt' := appendLeaf_isOk (by omega)
      have hrun : appendRun compress treeDepth (xs ++ [x]) = imt' := by
        unfold appendRun at h ⊢
        rw [run_concat]
        exact attempt_ok h
      rw [hrun, leafOf_concat]
      refine ⟨hcount ▸ appendLeaf_counter hC h, ?_⟩
      rw [appendLeaf_leafCount h, hcount, List.length_append, List.length_singleton]

/-- A root that was current after a part of the run is confirmed after the run. -/
theorem appendRun_confirmed {ys : List U256} (xs : List U256) :
    (appendRun compress treeDepth (ys ++ xs)).confirmedRoots
      (appendRun compress treeDepth ys).currentRoot = true := by
  have hcurrent : ∀ zs, (appendRun compress treeDepth zs).confirmedRoots
      (appendRun compress treeDepth zs).currentRoot = true := by
    intro zs
    refine run_inv zs (fun s : ImtState => s.confirmedRoots s.currentRoot = true) ?_ ?_
    · exact update_self ..
    · intro x _ s s' _ hs
      exact (appendLeaf_confirmedRoots hs).1
  unfold appendRun
  rw [run_append]
  refine run_inv xs (fun s : ImtState => s.confirmedRoots _ = true) (hcurrent ys) ?_
  intro x _ s s' hs h
  exact (appendLeaf_confirmedRoots h).2 _ hs

end Doxa.Contract
