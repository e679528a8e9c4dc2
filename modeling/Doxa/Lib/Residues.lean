import Doxa.Lib.Numerals
import Mathlib.Algebra.BigOperators.Fin
import Mathlib.Data.List.GetD
import Mathlib.Data.Matrix.Mul
import Mathlib.Data.ZMod.Basic

/-!
# Matrices modulo `m` as lists

Vectors and matrices of numbers as lists, multiplied and reduced modulo `m`, so that an
identity between concrete matrices over `ZMod m` is a comparison of lists. `vec` and `mat`
read the lists as vectors and matrices of residues; missing entries are zero.
-/

namespace Lib.Residues

variable {m : ℕ}

def vec (n : ℕ) (l : List ℕ) : Fin n → ZMod m := fun i => (l.getD i 0 : ℕ)

def mat (n k : ℕ) (M : List (List ℕ)) : Matrix (Fin n) (Fin k) (ZMod m) :=
  fun i => vec k (M.getD i [])

def dot : List ℕ → List ℕ → ℕ
  | a :: as, b :: bs => a * b + dot as bs
  | _, _ => 0

def mulVec (m : ℕ) (M : List (List ℕ)) (v : List ℕ) : List ℕ := M.map fun row => dot row v % m

/-- The first `k` columns. -/
def columns (k : ℕ) (M : List (List ℕ)) : List (List ℕ) :=
  (List.range k).map fun j => M.map fun row => row.getD j 0

def matMul (m k : ℕ) (A B : List (List ℕ)) : List (List ℕ) :=
  A.map fun row => mulVec m (columns k B) row

/-- `a - b` in every entry. -/
def sub (m : ℕ) (a b : List ℕ) : List ℕ := List.zipWith (fun x y => (x + (m - 1) * y) % m) a b

theorem vec_cons (n a : ℕ) (l : List ℕ) :
    (vec (n + 1) (a :: l) : Fin (n + 1) → ZMod m) = Fin.cons (a : ZMod m) (vec n l) := by
  funext i
  refine Fin.cases rfl (fun i => ?_) i
  simp [vec]

theorem vec_nil (n : ℕ) : (vec n [] : Fin n → ZMod m) = 0 := by
  funext i
  simp [vec]

theorem getD_tail {α : Type} (l : List α) (i : ℕ) (d : α) : l.tail.getD i d = l.getD (i + 1) d := by
  cases l <;> rfl

theorem vec_tail (n : ℕ) (l : List ℕ) :
    (vec n l.tail : Fin n → ZMod m) = fun i => vec (n + 1) l i.succ := by
  funext i
  simp only [vec, getD_tail, Fin.val_succ]

theorem vec_succ (n : ℕ) (l : List ℕ) :
    (vec (n + 1) l : Fin (n + 1) → ZMod m) = Fin.cons ((l.headD 0 : ℕ) : ZMod m) (vec n l.tail) := by
  cases l with
  | nil =>
    rw [vec_nil, List.tail_nil, vec_nil]
    funext i
    refine Fin.cases ?_ (fun i => ?_) i
    · simp
    · simp
  | cons a l => exact vec_cons n a l

theorem dot_cast {n : ℕ} {a b : List ℕ} (h : b.length ≤ n) :
    ((dot a b : ℕ) : ZMod m) = ∑ i : Fin n, vec n a i * vec n b i := by
  induction a generalizing b n with
  | nil => simp [dot, vec]
  | cons x a ih =>
    cases b with
    | nil => simp [dot, vec]
    | cons y b =>
      cases n with
      | zero => simp at h
      | succ n =>
        rw [Fin.sum_univ_succ, vec_cons, vec_cons]
        simp only [dot, Fin.cons_zero, Fin.cons_succ]
        rw [Nat.cast_add, Nat.cast_mul, ih (by simpa using h)]

theorem vec_mulVec {n k : ℕ} {M : List (List ℕ)} {v : List ℕ} (hv : v.length ≤ k) :
    (vec n (mulVec m M v) : Fin n → ZMod m) = (mat n k M).mulVec (vec k v) := by
  funext i
  have hget : (mulVec m M v).getD i 0 = dot (M.getD i []) v % m :=
    List.getD_map M [] fun row => dot row v % m
  rw [vec, hget, ZMod.natCast_mod, dot_cast hv]
  rfl

theorem mat_columns (n k : ℕ) (M : List (List ℕ)) :
    (mat k n (columns k M) : Matrix (Fin k) (Fin n) (ZMod m)) = (mat n k M).transpose := by
  funext j i
  have hcol : (columns k M).getD j [] = M.map fun row => row.getD j 0 := by
    rw [columns, List.getD_eq_getElem _ _ (by simp)]
    simp
  have hget : (M.map fun row => row.getD j.val 0).getD i 0 = (M.getD i []).getD j 0 :=
    List.getD_map M [] fun row => row.getD j.val 0
  show ((((columns k M).getD j []).getD i 0 : ℕ) : ZMod m) = _
  rw [hcol, hget]
  rfl

theorem mat_matMul {n l k : ℕ} {A B : List (List ℕ)} (hA : ∀ row ∈ A, row.length ≤ l) :
    (mat n k (matMul m k A B) : Matrix (Fin n) (Fin k) (ZMod m)) =
      (mat n l A : Matrix _ _ (ZMod m)) * (mat l k B : Matrix _ _ (ZMod m)) := by
  have hprod : ∀ row : List ℕ, row.length ≤ l → ∀ j : Fin k,
      (vec k (mulVec m (columns k B) row) j : ZMod m) = ∑ x, vec l row x * mat l k B x j := by
    intro row hrow j
    rw [vec_mulVec hrow, mat_columns, Matrix.mulVec, dotProduct]
    exact Finset.sum_congr rfl fun x _ => mul_comm (mat l k B x j) (vec l row x)
  funext i j
  rw [Matrix.mul_apply]
  show vec k ((matMul m k A B).getD i []) j = ∑ x, vec l (A.getD i []) x * mat l k B x j
  by_cases hi : i.val < A.length
  · rw [List.getD_eq_getElem A _ hi, ← hprod _ (hA _ (List.getElem_mem hi)),
      List.getD_eq_getElem _ _ (by simpa [matMul] using hi)]
    simp [matMul]
  · rw [List.getD_eq_default A _ (by omega), List.getD_eq_default _ _ (by simp [matMul]; omega)]
    simp [vec_nil]

theorem length_of_mem_matMul {k : ℕ} {A B : List (List ℕ)} {row : List ℕ}
    (h : row ∈ matMul m k A B) : row.length ≤ k := by
  obtain ⟨r, -, rfl⟩ := List.mem_map.mp h
  simp [mulVec, columns]

theorem vec_sub {n : ℕ} [NeZero m] {a b : List ℕ} (h : a.length = b.length) :
    (vec n (sub m a b) : Fin n → ZMod m) = vec n a - vec n b := by
  funext i
  have hm : ((m - 1 : ℕ) : ZMod m) = -1 := by
    rw [Nat.cast_sub (NeZero.one_le), ZMod.natCast_self, Nat.cast_one, zero_sub]
  have hget : (sub m a b).getD i 0 = (a.getD i 0 + (m - 1) * b.getD i 0) % m := by
    by_cases hi : i.val < a.length
    · rw [List.getD_eq_getElem a _ hi, List.getD_eq_getElem b _ (h ▸ hi),
        List.getD_eq_getElem _ _ (by simpa [sub, h] using hi)]
      simp [sub]
    · rw [List.getD_eq_default a _ (by omega), List.getD_eq_default b _ (by omega),
        List.getD_eq_default _ _ (by simp [sub, h]; omega)]
      simp
  show (((sub m a b).getD i 0 : ℕ) : ZMod m) = _
  rw [hget, ZMod.natCast_mod, Nat.cast_add, Nat.cast_mul, hm, neg_one_mul, ← sub_eq_add_neg]
  rfl

end Lib.Residues
