import Doxa.Lib.CompleteTree
import Mathlib.Data.List.Basic

/-!
# Folding the levels of a tree in one buffer

A level of a binary tree is replaced by the level above it without a second buffer: position
`i` is overwritten with the combination of the positions `2 * i` and `2 * i + 1`, and the
buffer is cut to its lower half. Round `i` writes at `i` and later rounds read from
`2 * (i + 1)` on, so no value is lost before it is read.
-/

namespace Lib

variable {D : Type*} (h : D → D → D)

/-- `nodes[i] = h(nodes[2 * i], nodes[2 * i + 1])`; an index out of bounds is `none`. -/
def foldPair (nodes : List D) (i : ℕ) : Option (List D) := do
  let left ← nodes[2 * i]?
  let right ← nodes[2 * i + 1]?
  return nodes.set i (h left right)

/-- `for i in 0..parent_len`, and `nodes.truncate(parent_len)`. -/
def foldPairs (parentLen : ℕ) (nodes : List D) : Option (List D) := do
  let nodes ← (List.range parentLen).foldlM (foldPair h) nodes
  return nodes.take parentLen

theorem foldPairs_length {parentLen : ℕ} {nodes parents : List D}
    (hfold : foldPairs h parentLen nodes = some parents) : parents.length ≤ parentLen := by
  simp only [foldPairs, bind, Option.bind_eq_some_iff, pure, Option.some.injEq] at hfold
  obtain ⟨out, -, rfl⟩ := hfold
  exact List.length_take_le parentLen out

/-- `while nodes.len() > 1`, and then `nodes[0]`. -/
def foldLevels (nodes : List D) : Option D :=
  if 1 < nodes.length then
    match _hfold : foldPairs h (nodes.length >>> 1) nodes with
    | some parents => foldLevels parents
    | none => none
  else nodes[0]?
termination_by nodes.length
decreasing_by
  have hlen := foldPairs_length h _hfold
  rw [Nat.shiftRight_one] at hlen
  omega

variable {h}

/-- After `n` rounds the first `n` positions hold the parents and the others are as before. -/
theorem foldlM_foldPair {nodes : List D} {node : ℕ → D} {n : ℕ}
    (hnodes : ∀ i < 2 * n, nodes[i]? = some (node i)) :
    ∃ out, (List.range n).foldlM (foldPair h) nodes = some out ∧
      (∀ i < n, out[i]? = some (h (node (2 * i)) (node (2 * i + 1)))) ∧
      ∀ i, n ≤ i → out[i]? = nodes[i]? := by
  induction n with
  | zero => exact ⟨nodes, rfl, fun i hi => absurd hi (Nat.not_lt_zero i), fun _ _ => rfl⟩
  | succ n ih =>
    obtain ⟨out, hout, hdone, hrest⟩ := ih fun i hi => hnodes i (by omega)
    have hleft : out[2 * n]? = some (node (2 * n)) := by
      rw [hrest _ (by omega)]
      exact hnodes _ (by omega)
    have hright : out[2 * n + 1]? = some (node (2 * n + 1)) := by
      rw [hrest _ (by omega)]
      exact hnodes _ (by omega)
    have hbound : n < out.length := by
      have := (List.getElem?_eq_some_iff.mp hleft).1
      omega
    refine ⟨out.set n (h (node (2 * n)) (node (2 * n + 1))), ?_, fun i hi => ?_, fun i hi => ?_⟩
    · rw [List.range_succ, List.foldlM_append, hout]
      simp only [foldPair, bind, Option.bind, List.foldlM_cons, List.foldlM_nil, hleft, hright, pure]
    · rcases Nat.lt_succ_iff_lt_or_eq.mp hi with hlt | rfl
      · rw [List.getElem?_set_ne (by omega)]
        exact hdone i hlt
      · exact List.getElem?_set_self hbound
    · rw [List.getElem?_set_ne (by omega)]
      exact hrest i (by omega)

/-- One round of the outer loop replaces a level by the one above it. -/
theorem foldPairs_level {nodes : List D} {leaf : ℕ → D} {l n : ℕ} (hlen : nodes.length = 2 * n)
    (hnodes : ∀ i < 2 * n, nodes[i]? = some (node h leaf l i)) :
    ∃ parents, foldPairs h (nodes.length >>> 1) nodes = some parents ∧ parents.length = n ∧
      ∀ i < n, parents[i]? = some (node h leaf (l + 1) i) := by
  have hhalf : nodes.length >>> 1 = n := by
    rw [Nat.shiftRight_one]
    omega
  obtain ⟨out, hout, hdone, hrest⟩ := foldlM_foldPair hnodes
  have hlong : n ≤ out.length := by
    cases n with
    | zero => exact Nat.zero_le _
    | succ n => exact (List.getElem?_eq_some_iff.mp (hdone n (Nat.lt_succ_self n))).1
  refine ⟨out.take n, ?_, List.length_take_of_le hlong, fun i hi => ?_⟩
  · rw [hhalf, foldPairs, hout]
    rfl
  · rw [List.getElem?_take_of_lt hi, node_succ]
    exact hdone i hi

/-- The loop over a complete level ends with the root of the tree. -/
theorem foldLevels_eq_node {leaf : ℕ → D} (depth : ℕ) {nodes : List D} (l : ℕ)
    (hlen : nodes.length = 2 ^ depth)
    (hnodes : ∀ i < 2 ^ depth, nodes[i]? = some (node h leaf l i)) :
    foldLevels h nodes = some (node h leaf (l + depth) 0) := by
  induction depth generalizing nodes l with
  | zero =>
    rw [foldLevels, if_neg (by rw [hlen]; decide)]
    exact hnodes 0 (by decide)
  | succ depth ih =>
    have hpos : 0 < 2 ^ depth := Nat.two_pow_pos depth
    rw [pow_succ'] at hlen hnodes
    obtain ⟨parents, hfold, hparents, hlevel⟩ := foldPairs_level hlen hnodes
    have hnext := ih (l + 1) hparents hlevel
    rw [foldLevels, if_pos (by omega)]
    rw [show l + (depth + 1) = l + 1 + depth by omega, ← hnext]
    split
    · rename_i other hother
      rw [hfold, Option.some.injEq] at hother
      rw [hother]
    · rename_i hnone
      rw [hfold] at hnone
      cases hnone

end Lib
