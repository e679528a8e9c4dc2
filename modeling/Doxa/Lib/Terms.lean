import Mathlib.Algebra.BigOperators.Group.List.Basic
import Mathlib.Algebra.Ring.Defs
import Mathlib.Algebra.BigOperators.Group.List.Lemmas

/-!
# Arithmetic terms

What a circuit builder returns for a sequence of ring operations: a target is the term of the
operations that produced it, over wires and constants, and its value under an assignment of
the wires is the value of the term.
-/

namespace Lib

inductive Term (K : Type*) where
  | wire (i : ℕ)
  | constant (c : K)
  | add (a b : Term K)
  | sub (a b : Term K)
  | mul (a b : Term K)

namespace Term

variable {K : Type*} [Ring K] (w : ℕ → K)

/-- The value under an assignment. -/
def eval : Term K → K
  | wire i => w i
  | constant c => c
  | add a b => a.eval + b.eval
  | sub a b => a.eval - b.eval
  | mul a b => a.eval * b.eval

@[simp] theorem eval_wire (i : ℕ) : (wire i : Term K).eval w = w i := rfl

@[simp] theorem eval_constant (c : K) : (constant c).eval w = c := rfl

@[simp] theorem eval_add (a b : Term K) : (add a b).eval w = a.eval w + b.eval w := rfl

@[simp] theorem eval_sub (a b : Term K) : (sub a b).eval w = a.eval w - b.eval w := rfl

@[simp] theorem eval_mul (a b : Term K) : (mul a b).eval w = a.eval w * b.eval w := rfl

/-- The terms are added to zero one after the other. -/
def addMany (ts : List (Term K)) : Term K := ts.foldl add (constant 0)

@[simp] theorem eval_addMany (ts : List (Term K)) :
    (addMany ts).eval w = (ts.map (eval w)).sum := by
  have hfold : ∀ (a : Term K), (ts.foldl add a).eval w = a.eval w + (ts.map (eval w)).sum := by
    induction ts with
    | nil => simp
    | cons t ts ih =>
      intro a
      rw [List.foldl_cons, ih, eval_add, List.map_cons, List.sum_cons, add_assoc]
  rw [addMany, hfold, eval_constant, zero_add]

end Term

end Lib
