import Doxa.Hash.Poseidon

/-!
# Circuits as constraints on wire values

A circuit is embedded as the set of assignments that satisfy it. A target is the field
element on its wire; a gadget is the structure of the targets it allocates, functions for
the targets it computes and a proposition for the constraints it adds. Targets that are
connected are equal. What the generators would fill in plays no role: a prover may choose
any value the constraints allow.

This module has the builder's own operations and the Merkle path gadget.
-/

namespace Doxa.Circuit

open Lib

/-! ## Arithmetic of the builder -/

/-- `add_virtual_bool_target_safe`. -/
def IsBool (b : F) : Prop := b * b - b = 0

instance (b : F) : Decidable (IsBool b) := inferInstanceAs (Decidable (_ = _))

theorem isBool_iff {b : F} : IsBool b ↔ b = 0 ∨ b = 1 := by
  unfold IsBool
  rw [show b * b - b = b * (b - 1) by ring, mul_eq_zero, sub_eq_zero]

def not (b : F) : F := 1 - b

def and (b₁ b₂ : F) : F := b₁ * b₂

def or (b₁ b₂ : F) : F := b₁ + b₂ - b₁ * b₂

theorem not_one : not 1 = 0 := sub_self 1

theorem not_zero : not 0 = 1 := sub_zero 1

theorem and_eq_one {a b : F} (ha : IsBool a) : and a b = 1 ↔ a = 1 ∧ b = 1 := by
  rcases isBool_iff.mp ha with rfl | rfl
  · simp [and]
  · simp [and]

theorem or_eq_one {a b : F} (ha : IsBool a) : or a b = 1 ↔ a = 1 ∨ b = 1 := by
  rcases isBool_iff.mp ha with rfl | rfl
  · simp [or]
  · simp [or]

theorem isBool_not {a : F} (ha : IsBool a) : IsBool (not a) := by
  rcases isBool_iff.mp ha with rfl | rfl
  · exact isBool_iff.mpr (.inr not_zero)
  · exact isBool_iff.mpr (.inl not_one)

theorem isBool_and {a b : F} (ha : IsBool a) (hb : IsBool b) : IsBool (and a b) := by
  rcases isBool_iff.mp ha with rfl | rfl
  · rw [and, zero_mul]
    exact ha
  · rw [and, one_mul]
    exact hb

theorem isBool_or {a b : F} (ha : IsBool a) (hb : IsBool b) : IsBool (or a b) := by
  rcases isBool_iff.mp ha with rfl | rfl
  · rw [or, zero_mul, zero_add, sub_zero]
    exact hb
  · rw [or, one_mul, add_sub_cancel_right]
    exact ha

/-- `_if` and `select`. -/
def ifElse (b x y : F) : F := b * x + (1 - b) * y

/-- `conditional_assert_eq`. -/
def CondEq (condition x y : F) : Prop := condition * (x - y) = 0

instance (c x y : F) : Decidable (CondEq c x y) := inferInstanceAs (Decidable (_ = _))

theorem condEq_one {x y : F} : CondEq 1 x y ↔ x = y := by
  rw [CondEq, one_mul, sub_eq_zero]

theorem condEq_zero (x y : F) : CondEq 0 x y := zero_mul _

theorem condEq_self (c x : F) : CondEq c x x := by
  rw [CondEq, sub_self, mul_zero]

@[simp] theorem ifElse_one (x y : F) : ifElse 1 x y = x := by simp [ifElse]

@[simp] theorem ifElse_zero (x y : F) : ifElse 0 x y = y := by simp [ifElse]

/-- `_if` on every element of a digest. -/
def ifElseHash (b : F) (x y : HashOut) : HashOut := fun i => ifElse b (x i) (y i)

@[simp] theorem ifElseHash_one (x y : HashOut) : ifElseHash 1 x y = x := by
  funext i
  exact ifElse_one _ _

@[simp] theorem ifElseHash_zero (x y : HashOut) : ifElseHash 0 x y = y := by
  funext i
  exact ifElse_zero _ _

/-- `conditionally_assert_hash_equal` and `conditional_connect`. -/
def CondHashEq (condition : F) (x y : HashOut) : Prop := ∀ i, CondEq condition (x i) (y i)

instance (c : F) (x y : HashOut) : Decidable (CondHashEq c x y) :=
  inferInstanceAs (Decidable (∀ _, _))

theorem condHashEq_one {x y : HashOut} : CondHashEq 1 x y ↔ x = y := by
  rw [funext_iff]
  exact forall_congr' fun _ => condEq_one

theorem condHashEq_zero (x y : HashOut) : CondHashEq 0 x y := fun _ => condEq_zero _ _

theorem condHashEq_self (c : F) (x : HashOut) : CondHashEq c x x := fun _ => condEq_self _ _

/-! ## Merkle paths -/

variable (perm : State → State)

/-- The input of `permute_swapped`: the gate exchanges the first two quarters when `swap`
is one. -/
def swappedState (cur sib : HashOut) (swap : F) : State := fun i =>
  if h : i.val < 4 then cur ⟨i, h⟩ + swap * (sib ⟨i, h⟩ - cur ⟨i, h⟩)
  else if h : i.val < 8 then
    sib ⟨i - 4, by omega⟩ - swap * (sib ⟨i - 4, by omega⟩ - cur ⟨i - 4, by omega⟩)
  else 0

def hash2to1SwappedCircuit (cur sib : HashOut) (dir : F) : HashOut :=
  squeeze (perm (swappedState cur sib dir))

theorem swapped_comm (cur sib : HashOut) :
    hash2to1SwappedCircuit perm cur sib 1 = hash2to1SwappedCircuit perm sib cur 0 := by
  have hstate : swappedState cur sib 1 = swappedState sib cur 0 := by
    funext i
    unfold swappedState
    split
    · ring
    · split
      · ring
      · rfl
  rw [hash2to1SwappedCircuit, hstate, hash2to1SwappedCircuit]

/-- The targets of a Merkle path of the given depth. -/
structure MerkleRootTarget (depth : ℕ) where
  siblings : Fin depth → HashOut
  bits : Fin depth → F

variable {depth : ℕ}

/-- The root `compute_merkle_root_gadget` returns. -/
def MerkleRootTarget.root (t : MerkleRootTarget depth) (leaf : HashOut) : HashOut :=
  Fin.foldl depth (fun cur i => hash2to1SwappedCircuit perm cur (t.siblings i) (t.bits i)) leaf

/-- The constraints of `compute_merkle_root_gadget`. -/
def MerkleRootTarget.Satisfied (t : MerkleRootTarget depth) : Prop := ∀ i, IsBool (t.bits i)

/-- `conditional_merkle_verify_gadget`. -/
def MerkleRootTarget.ConditionalVerify (t : MerkleRootTarget depth) (leaf expectedRoot : HashOut)
    (selector : F) : Prop :=
  t.Satisfied ∧ CondHashEq selector (t.root perm leaf) expectedRoot

/-- The all-zero path, as padding slots use it. -/
def MerkleRootTarget.zero (depth : ℕ) : MerkleRootTarget depth where
  siblings := fun _ => 0
  bits := fun _ => 0

theorem MerkleRootTarget.zero_satisfied (depth : ℕ) : (MerkleRootTarget.zero depth).Satisfied :=
  fun _ => isBool_iff.mpr (.inl rfl)

/-- A path verifies against its own root. -/
theorem MerkleRootTarget.verify_self {t : MerkleRootTarget depth} (ht : t.Satisfied)
    (leaf : HashOut) (selector : F) : t.ConditionalVerify perm leaf (t.root perm leaf) selector :=
  ⟨ht, condHashEq_self _ _⟩

end Doxa.Circuit
