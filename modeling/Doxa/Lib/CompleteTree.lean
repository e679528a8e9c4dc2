import Doxa.Lib.Execution
import Doxa.Lib.Numerals
import Mathlib.Algebra.Order.Ring.Nat
import Mathlib.Logic.Function.Basic
import Mathlib.Tactic.Linarith
import Mathlib.Tactic.Ring

/-!
# Complete binary trees read from a leaf function

`node h leaf l i` is the value of the `i`-th node of level `l` (the leaves are level `0`)
of the infinite complete binary tree over `leaf : ℕ → D`, combined by `h`. The root of
the tree of depth `d` is `node h leaf d 0`. The node `(l, i)` reads exactly the leaves
`i * 2^l, …, (i + 1) * 2^l - 1`; a node over default leaves is a rung of `ladder`.
-/

namespace Lib

variable {D : Type*} (h : D → D → D)

/-- The `i`-th node of level `l`. -/
def node (leaf : ℕ → D) : ℕ → ℕ → D
  | 0, i => leaf i
  | l + 1, i => h (node leaf l (2 * i)) (node leaf l (2 * i + 1))

/-- The values of the subtrees over default leaves, by level. -/
def ladder (z : D) : ℕ → D
  | 0 => z
  | l + 1 => h (ladder z l) (ladder z l)

@[simp] theorem node_zero (leaf : ℕ → D) (i : ℕ) : node h leaf 0 i = leaf i := rfl

theorem node_succ (leaf : ℕ → D) (l i : ℕ) :
    node h leaf (l + 1) i = h (node h leaf l (2 * i)) (node h leaf l (2 * i + 1)) := rfl

@[simp] theorem ladder_zero (z : D) : ladder h z 0 = z := rfl

@[simp] theorem ladder_succ (z : D) (l : ℕ) :
    ladder h z (l + 1) = h (ladder h z l) (ladder h z l) := rfl

variable {h}

/-- A node depends only on the leaves below it. -/
theorem node_congr {f g : ℕ → D} {l i : ℕ}
    (hfg : ∀ j, i * 2 ^ l ≤ j → j < (i + 1) * 2 ^ l → f j = g j) :
    node h f l i = node h g l i := by
  induction l generalizing i with
  | zero => exact hfg i (by simp) (by simp)
  | succ l ih =>
      have hpow : 2 ^ (l + 1) = 2 * 2 ^ l := by ring
      simp only [node_succ]
      congr 1
      · refine ih fun j hlo hhi => hfg j ?_ ?_ <;> rw [hpow] <;> nlinarith
      · refine ih fun j hlo hhi => hfg j ?_ ?_ <;> rw [hpow] <;> nlinarith

/-- A node over default leaves. -/
theorem node_eq_ladder {f : ℕ → D} {z : D} {l i : ℕ}
    (hf : ∀ j, i * 2 ^ l ≤ j → j < (i + 1) * 2 ^ l → f j = z) :
    node h f l i = ladder h z l := by
  rw [node_congr (g := fun _ => z) hf]
  clear hf
  induction l generalizing i with
  | zero => rfl
  | succ l ih => simp only [node_succ, ladder_succ, ih]

/-- A map that commutes with the combination carries one tree to the other. -/
theorem map_node {E : Type*} {k : E → E → E} (φ : D → E) (hφ : ∀ a b, φ (h a b) = k (φ a) (φ b))
    (leaf : ℕ → D) (l i : ℕ) : φ (node h leaf l i) = node k (fun j => φ (leaf j)) l i := by
  induction l generalizing i with
  | zero => rfl
  | succ l ih => simp only [node_succ, hφ, ih]

/-! ## The path of one position -/

/-- The parent of `i` on the level of `i / 2`, by the parity of `i`. -/
theorem node_parent (leaf : ℕ → D) (l i : ℕ) :
    node h leaf (l + 1) (i / 2) =
      if i % 2 = 0 then h (node h leaf l i) (node h leaf l (i + 1))
      else h (node h leaf l (i - 1)) (node h leaf l i) := by
  rw [node_succ]
  split
  · rw [show 2 * (i / 2) = i by omega]
  · rw [show 2 * (i / 2) = i - 1 by omega, show i - 1 + 1 = i by omega]

/-! ## Climbing from a leaf -/

variable (h) in
/-- The value after `k` levels of a path: `bit` says that the current value is the right child. -/
def climb (sib : ℕ → D) (bit : ℕ → Bool) (x : D) : ℕ → D
  | 0 => x
  | k + 1 => if bit k then h (sib k) (climb sib bit x k) else h (climb sib bit x k) (sib k)

variable (h) in
/-- The two values the path combines on level `k`. -/
def pathPair (sib : ℕ → D) (bit : ℕ → Bool) (x : D) (k : ℕ) : D × D :=
  if bit k then (sib k, climb h sib bit x k) else (climb h sib bit x k, sib k)

variable (h) in
/-- The two children of node `i` of level `k + 1`. -/
def nodePair (leaf : ℕ → D) (k i : ℕ) : D × D := (node h leaf k (2 * i), node h leaf k (2 * i + 1))

theorem div_pow_succ (i k : ℕ) :
    i / 2 ^ k = 2 * (i / 2 ^ (k + 1)) + if i.testBit k then 1 else 0 := by
  have hdiv : i / 2 ^ (k + 1) = i / 2 ^ k / 2 := by rw [pow_succ, Nat.div_div_eq_div_mul]
  rw [hdiv, Nat.testBit_eq_decide_div_mod_eq]
  split
  · rename_i hbit
    have := of_decide_eq_true hbit
    omega
  · rename_i hbit
    have := Nat.mod_two_ne_one.mp fun hone => hbit (decide_eq_true hone)
    omega

variable (h) in
/-- On level `l` the path of position `i` combines other children than the tree, to the same
parent. -/
def PathCollision (leaf sib : ℕ → D) (x : D) (i l : ℕ) : Prop :=
  pathPair h sib i.testBit x l ≠ nodePair h leaf l (i / 2 ^ (l + 1)) ∧
    climb h sib i.testBit x (l + 1) = node h leaf (l + 1) (i / 2 ^ (l + 1))

variable (h) in
/-- The sibling, on level `k`, of the ancestor of position `i`. -/
def siblingOf (leaf : ℕ → D) (i k : ℕ) : D :=
  node h leaf k (if i.testBit k then i / 2 ^ k - 1 else i / 2 ^ k + 1)

variable (h) in
/-- The path of position `i` to level `k`, from the value `x` and the siblings `sib`, is the one
of the tree. -/
def IsPath (leaf sib : ℕ → D) (x : D) (i k : ℕ) : Prop :=
  x = leaf i ∧ ∀ l < k, sib l = siblingOf h leaf i l

theorem node_div_pow_succ (leaf : ℕ → D) (i k : ℕ) :
    node h leaf (k + 1) (i / 2 ^ (k + 1)) =
      if i.testBit k then h (siblingOf h leaf i k) (node h leaf k (i / 2 ^ k))
      else h (node h leaf k (i / 2 ^ k)) (siblingOf h leaf i k) := by
  rw [node_succ]
  have hdiv := div_pow_succ i k
  unfold siblingOf
  by_cases hbit : i.testBit k = true
  · rw [if_pos hbit] at hdiv ⊢
    rw [if_pos hbit, hdiv, Nat.add_sub_cancel]
  · rw [if_neg hbit, Nat.add_zero] at hdiv
    rw [if_neg hbit, if_neg hbit, hdiv]

/-- A sibling on the path of `i` does not read leaf `i`. -/
theorem siblingOf_update (leaf : ℕ → D) (x : D) (i k : ℕ) :
    siblingOf h (Function.update leaf i x) i k = siblingOf h leaf i k := by
  unfold siblingOf
  apply node_congr
  intro j hlo hhi
  apply Function.update_of_ne
  rintro rfl
  have hpos : 0 < 2 ^ k := by positivity
  have hle := (Nat.le_div_iff_mul_le hpos).mpr hlo
  have hlt := (Nat.div_lt_iff_lt_mul hpos).mpr hhi
  split at hle
  · rename_i hbit
    rw [if_pos hbit] at hlt
    have hdiv := div_pow_succ j k
    rw [if_pos hbit] at hdiv
    omega
  · omega

/-- Climbing with the siblings of the tree, from any value, gives the tree with that value at the
position. -/
theorem climb_siblings {leaf sib : ℕ → D} {x : D} {i k : ℕ}
    (hsib : ∀ l < k, sib l = siblingOf h leaf i l) :
    climb h sib i.testBit x k = node h (Function.update leaf i x) k (i / 2 ^ k) := by
  induction k with
  | zero => simp [climb]
  | succ k ih =>
    have hbelow := ih fun l hl => hsib l (hl.trans (Nat.lt_succ_self k))
    rw [node_div_pow_succ, siblingOf_update, ← hbelow, ← hsib k (Nat.lt_succ_self k)]
    rfl

/-- A path in two pieces. -/
theorem climb_add (sib : ℕ → D) (bit : ℕ → Bool) (x : D) (m n : ℕ) :
    climb h sib bit x (m + n) =
      climb h (fun k => sib (m + k)) (fun k => bit (m + k)) (climb h sib bit x m) n := by
  induction n with
  | zero => rfl
  | succ n ih => rw [← Nat.add_assoc, climb, ih, climb]

theorem climb_congr {sib sib' : ℕ → D} {bit bit' : ℕ → Bool} {x : D} {n : ℕ}
    (hsib : ∀ k < n, sib k = sib' k) (hbit : ∀ k < n, bit k = bit' k) :
    climb h sib bit x n = climb h sib' bit' x n := by
  induction n with
  | zero => rfl
  | succ n ih =>
    have hbelow := ih (fun k hk => hsib k (by omega)) fun k hk => hbit k (by omega)
    rw [climb, climb, hbelow, hsib n (Nat.lt_succ_self n), hbit n (Nat.lt_succ_self n)]

/-- A map that commutes with the combination carries one path to the other. -/
theorem map_climb {E : Type*} {g : E → E → E} (φ : D → E) (hφ : ∀ a b, φ (h a b) = g (φ a) (φ b))
    (sib : ℕ → D) (bit : ℕ → Bool) (x : D) (k : ℕ) :
    φ (climb h sib bit x k) = climb g (fun l => φ (sib l)) bit (φ x) k := by
  induction k with
  | zero => rfl
  | succ k ih =>
    rw [climb, climb, ← ih, apply_ite φ, hφ, hφ]

/-- The loop over the bits of a position is a climb. -/
theorem forLoop_climb (sib : ℕ → D) (i : ℕ) (x : D) (k : ℕ) :
    forLoop (fun l cur => if (i >>> l) &&& 1 = 0 then h cur (sib l) else h (sib l) cur) k x =
      climb h sib i.testBit x k := by
  induction k with
  | zero => rfl
  | succ k ih =>
    have hbit : ((i >>> k) &&& 1 = 0) ↔ ¬ i.testBit k = true := by
      rw [Nat.testBit_eq_decide_div_mod_eq, decide_eq_true_eq, Nat.shiftRight_eq_div_pow,
        Nat.and_one_is_mod]
      omega
    rw [forLoop_succ, ih]
    simp only [climb, hbit, ite_not]

/-- The path of a position, along the siblings of the tree, ends at the root. -/
theorem climb_tree (leaf : ℕ → D) (i k : ℕ) :
    climb h (siblingOf h leaf i) i.testBit (leaf i) k = node h leaf k (i / 2 ^ k) := by
  rw [climb_siblings fun _ _ => rfl, Function.update_eq_self]

/-- A path that ends at a node of the tree is the one of the tree, unless it collides with the
tree on some level. -/
theorem isPath_of_climb {leaf sib : ℕ → D} {x : D} {i k : ℕ}
    (hclimb : climb h sib i.testBit x k = node h leaf k (i / 2 ^ k)) :
    IsPath h leaf sib x i k ∨ ∃ l < k, PathCollision h leaf sib x i l := by
  induction k with
  | zero =>
    have hx : x = leaf i := by simpa [climb] using hclimb
    exact .inl ⟨hx, fun l hl => absurd hl (Nat.not_lt_zero l)⟩
  | succ k ih =>
    by_cases hpair : pathPair h sib i.testBit x k = nodePair h leaf k (i / 2 ^ (k + 1))
    · have hstep : climb h sib i.testBit x k = node h leaf k (i / 2 ^ k) ∧
          sib k = siblingOf h leaf i k := by
        have hdiv := div_pow_succ i k
        unfold pathPair nodePair at hpair
        unfold siblingOf
        split at hpair
        · rename_i hbit
          rw [if_pos hbit] at hdiv ⊢
          rw [hdiv, Nat.add_sub_cancel]
          exact ⟨congrArg Prod.snd hpair, congrArg Prod.fst hpair⟩
        · rename_i hbit
          rw [if_neg hbit, Nat.add_zero] at hdiv
          rw [if_neg hbit, hdiv]
          exact ⟨congrArg Prod.fst hpair, congrArg Prod.snd hpair⟩
      rcases ih hstep.1 with ⟨hx, hsib⟩ | ⟨l, hl, hcol⟩
      · refine .inl ⟨hx, fun l hl => ?_⟩
        rcases Nat.lt_succ_iff_lt_or_eq.mp hl with hl | rfl
        · exact hsib l hl
        · exact hstep.2
      · exact .inr ⟨l, hl.trans (Nat.lt_succ_self k), hcol⟩
    · exact .inr ⟨k, Nat.lt_succ_self k, hpair, hclimb⟩

/-- A path of the tree combines the two children of the tree. -/
theorem pathPair_tree {leaf sib : ℕ → D} {x : D} {i l k : ℕ} (h' : IsPath h leaf sib x i k)
    (hl : l < k) : pathPair h sib i.testBit x l = nodePair h leaf l (i / 2 ^ (l + 1)) := by
  obtain ⟨rfl, hsib⟩ := h'
  have hclimb : climb h sib i.testBit (leaf i) l = node h leaf l (i / 2 ^ l) := by
    rw [climb_siblings fun j hj => hsib j (hj.trans hl), Function.update_eq_self]
  have hdiv := div_pow_succ i l
  unfold pathPair nodePair
  rw [hclimb, hsib l hl]
  unfold siblingOf
  by_cases hbit : i.testBit l = true
  · rw [if_pos hbit] at hdiv ⊢
    rw [if_pos hbit, hdiv, Nat.add_sub_cancel]
  · rw [if_neg hbit, Nat.add_zero] at hdiv
    rw [if_neg hbit, if_neg hbit, hdiv]

/-! ## Two trees with one root -/

variable (h) in
/-- Node `i` of level `l + 1` is the same in both trees, and its children are not. -/
def NodeCollision (f g : ℕ → D) (l i : ℕ) : Prop :=
  nodePair h f l i ≠ nodePair h g l i ∧ node h f (l + 1) i = node h g (l + 1) i

/-- Two trees that agree on a node agree on the leaves below it, unless they collide below it. -/
theorem leaf_eq_of_node_eq {f g : ℕ → D} {k i : ℕ} (hnode : node h f k i = node h g k i)
    (hfree : ∀ l < k, ∀ j, j / 2 ^ (k - 1 - l) = i → ¬ NodeCollision h f g l j) {j : ℕ}
    (hj : j / 2 ^ k = i) : f j = g j := by
  induction k generalizing i with
  | zero =>
    rw [pow_zero, Nat.div_one] at hj
    rw [hj]
    exact hnode
  | succ k ih =>
    have htop := hfree k (Nat.lt_succ_self k) i (by simp)
    have hpair : nodePair h f k i = nodePair h g k i := by
      by_contra hne
      exact htop ⟨hne, hnode⟩
    have hbelow : ∀ c, c / 2 = i → ∀ l < k, ∀ x, x / 2 ^ (k - 1 - l) = c →
        ¬ NodeCollision h f g l x := by
      intro c hc l hl x hx
      refine hfree l (hl.trans (Nat.lt_succ_self k)) x ?_
      rw [show k + 1 - 1 - l = k - 1 - l + 1 by omega, pow_succ, ← Nat.div_div_eq_div_mul, hx, hc]
    have hhalf : j / 2 ^ k / 2 = i := by rw [Nat.div_div_eq_div_mul, ← pow_succ, hj]
    rcases Nat.mod_two_eq_zero_or_one (j / 2 ^ k) with hpar | hpar
    · exact ih (congrArg Prod.fst hpair) (hbelow _ (by omega)) (by omega)
    · exact ih (congrArg Prod.snd hpair) (hbelow _ (by omega)) (by omega)

end Lib
