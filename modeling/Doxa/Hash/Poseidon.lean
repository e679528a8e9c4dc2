import Doxa.Field.Goldilocks
import Doxa.Lib.Sponge

/-!
# Poseidon digests

The Poseidon permutation of width 12 is a parameter `perm` of the whole development. The
hash of a list of field elements is the overwrite-mode sponge of rate 8 without padding,
and a digest is the first four lanes. `hash2to1Swapped` is the node hash of every Merkle
tree: `dir` says that the first argument is the right child.
-/

namespace Doxa

open Lib

abbrev State := Fin 12 → F

/-- `HashOut` and `HashOutput`, four field elements. -/
abbrev HashOut := Fin 4 → F

variable (perm : State → State)

/-- The first four lanes. -/
def squeeze (s : State) : HashOut := fun i => s (i.castLE (by decide))

/-- `PoseidonHash::hash_no_pad`. -/
def hashNoPad (inputs : List F) : HashOut := squeeze (absorb perm 0 (chunks 8 inputs))

def hash2to1Swapped (left right : HashOut) (dir : Bool) : HashOut :=
  hashNoPad perm
    (if dir then List.ofFn right ++ List.ofFn left else List.ofFn left ++ List.ofFn right)

def hash2to1 (left right : HashOut) : HashOut := hash2to1Swapped perm left right false

/-! ## Collisions -/

/-- Two different inputs with one digest. -/
def Collision (a b : List F) : Prop := a ≠ b ∧ hashNoPad perm a = hashNoPad perm b

theorem hashNoPad_eq_iff (a b : List F) :
    hashNoPad perm a = hashNoPad perm b ↔ a = b ∨ Collision perm a b := by
  constructor
  · intro h
    by_cases hab : a = b
    · exact .inl hab
    · exact .inr ⟨hab, h⟩
  · rintro (rfl | h)
    · rfl
    · exact h.2

end Doxa
